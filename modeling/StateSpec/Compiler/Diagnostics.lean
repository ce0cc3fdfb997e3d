/-
  DIAGNOSTICS — `diagnostic.hpp`, `validator_diagnostics.hpp` and the errors of `validator_symbols.cpp`.

  A pass of the compiler reports diagnostics one after another; here it is the list of what it reports.
  A pass is CLEAN when there is no error among them, warnings apart: `Clean` takes a pass to pieces the way
  the pass is put together (`clean_append`, `clean_reportIf`, `clean_flatMap`, `clean_eachSeen`).
-/
import StateSpec.Compiler.Token
import Mathlib.Data.List.Basic

namespace StateSpec.Compiler

/-- `DiagnosticBag::has_errors`. -/
def hasErrors (diagnostics : List Diagnostic) : Bool :=
  diagnostics.any fun diagnostic => decide (diagnostic.severity = .error)

/-- What a pass reports. -/
abbrev Diagnostics := List Diagnostic

/-- `DiagnosticBag::error`. -/
def Diagnostics.error (range : SourceRange) (code message : String) : Diagnostics :=
  [{ severity := .error, range, code, message }]

/-- `DiagnosticBag::warning`. -/
def Diagnostics.warning (range : SourceRange) (code message : String) : Diagnostics :=
  [{ severity := .warning, range, code, message }]

/-- `if (c) { … }`. -/
def reportIf (c : Prop) [Decidable c] (diagnostics : Diagnostics) : Diagnostics :=
  if c then diagnostics else []

/-- A loop that keeps the names it has seen: each item adds its own behind itself. -/
def eachSeen {α : Type} (names : α → List Bytes) (check : List Bytes → α → Diagnostics) :
    List Bytes → List α → Diagnostics
  | _, [] => []
  | seen, item :: rest => check seen item ++ eachSeen names check (seen ++ names item) rest

/-! ## The errors of the validator -/

/-- A string in a message. -/
def text (bytes : Bytes) : String := String.ofList (bytes.map fun b => Char.ofNat b.toNat)

def duplicateError (range : SourceRange) (name : Bytes) : Diagnostics :=
  .error range "SSPEC3001" ("duplicate declaration '" ++ text name ++ "'")

def unknownReferenceError (range : SourceRange) (kind : String) (name : Bytes) : Diagnostics :=
  .error range "SSPEC3002" ("unknown " ++ kind ++ " reference '" ++ text name ++ "'")

def requiredError (range : SourceRange) (subject field : String) : Diagnostics :=
  .error range "SSPEC4001" (subject ++ " must declare " ++ field)

def positiveIntegerError (range : SourceRange) (subject field : String) : Diagnostics :=
  .error range "SSPEC4002" (subject ++ " " ++ field ++ " must be a positive integer")

def nonNegativeIntegerError (range : SourceRange) (subject field : String) : Diagnostics :=
  .error range "SSPEC4003" (subject ++ " " ++ field ++ " must be non-negative")

def durationError (range : SourceRange) (subject field : String) : Diagnostics :=
  .error range "SSPEC4004" (subject ++ " " ++ field ++ " must be an ISO-8601 duration")

/-! ## Clean passes -/

theorem hasErrors_append (diagnostics more : List Diagnostic) :
    hasErrors (diagnostics ++ more) = (hasErrors diagnostics || hasErrors more) := by
  rw [hasErrors, hasErrors, hasErrors, List.any_append]

/-- A pass without errors. -/
def Clean (diagnostics : Diagnostics) : Prop := hasErrors diagnostics = false

instance (diagnostics : Diagnostics) : Decidable (Clean diagnostics) :=
  inferInstanceAs (Decidable (_ = _))

@[simp]
theorem clean_nil : Clean [] := rfl

@[simp]
theorem clean_append {diagnostics more : Diagnostics} :
    Clean (diagnostics ++ more) ↔ Clean diagnostics ∧ Clean more := by
  rw [Clean, hasErrors_append, Bool.or_eq_false_iff]
  exact Iff.rfl

@[simp]
theorem not_clean_error (range : SourceRange) (code message : String) :
    ¬ Clean (.error range code message) := by
  intro h
  cases h

@[simp]
theorem clean_warning (range : SourceRange) (code message : String) :
    Clean (.warning range code message) := rfl

@[simp]
theorem clean_reportIf {c : Prop} [Decidable c] {diagnostics : Diagnostics} :
    Clean (reportIf c diagnostics) ↔ (c → Clean diagnostics) := by
  unfold reportIf
  split
  · rename_i hc
    exact ⟨fun h _ => h, fun h => h hc⟩
  · rename_i hc
    exact ⟨fun _ h => absurd h hc, fun _ => rfl⟩

@[simp]
theorem clean_flatMap {α : Type} {items : List α} {check : α → Diagnostics} :
    Clean (items.flatMap check) ↔ ∀ item ∈ items, Clean (check item) := by
  induction items with
  | nil => simp
  | cons item rest ih => rw [List.flatMap_cons, clean_append, ih, List.forall_mem_cons]

@[simp]
theorem not_clean_duplicateError (range : SourceRange) (name : Bytes) :
    ¬ Clean (duplicateError range name) := not_clean_error _ _ _

@[simp]
theorem not_clean_unknownReferenceError (range : SourceRange) (kind : String) (name : Bytes) :
    ¬ Clean (unknownReferenceError range kind name) := not_clean_error _ _ _

@[simp]
theorem not_clean_requiredError (range : SourceRange) (subject field : String) :
    ¬ Clean (requiredError range subject field) := not_clean_error _ _ _

@[simp]
theorem not_clean_positiveIntegerError (range : SourceRange) (subject field : String) :
    ¬ Clean (positiveIntegerError range subject field) := not_clean_error _ _ _

@[simp]
theorem not_clean_durationError (range : SourceRange) (subject field : String) :
    ¬ Clean (durationError range subject field) := not_clean_error _ _ _

/-- Every item of a clean loop is clean, with the names of the items before it. -/
theorem clean_eachSeen {α : Type} {names : α → List Bytes} {check : List Bytes → α → Diagnostics}
    {seen : List Bytes} {items : List α} : Clean (eachSeen names check seen items) ↔
      ∀ before item after, items = before ++ item :: after →
        Clean (check (seen ++ before.flatMap names) item) := by
  induction items generalizing seen with
  | nil =>
    refine ⟨fun _ before item after h => ?_, fun _ => rfl⟩
    exact absurd h.symm (List.append_ne_nil_of_right_ne_nil before (List.cons_ne_nil item after))
  | cons first rest ih =>
    rw [eachSeen, clean_append, ih]
    constructor
    · rintro ⟨hfirst, hrest⟩ before item after h
      rcases before with _ | ⟨b, before⟩
      · obtain ⟨rfl, rfl⟩ := List.cons.inj h
        rw [List.flatMap_nil, List.append_nil]
        exact hfirst
      · obtain ⟨rfl, htail⟩ := List.cons.inj h
        have hitem := hrest before item after htail
        rwa [List.append_assoc, ← List.flatMap_cons] at hitem
    · intro hall
      refine ⟨?_, fun before item after h => ?_⟩
      · have hfirst := hall [] first rest rfl
        rwa [List.flatMap_nil, List.append_nil] at hfirst
      · have hitem := hall (first :: before) item after (by rw [h, List.cons_append])
        rwa [List.append_assoc, ← List.flatMap_cons]

/-- A loop that refuses a name it has seen lets names through that are apart. -/
theorem clean_eachSeen_names {α : Type} {name : α → Bytes} {range : α → SourceRange}
    {seen : List Bytes} {items : List α} :
    Clean (eachSeen (fun item => [name item])
        (fun names item => reportIf (name item ∈ names) (duplicateError (range item) (name item)))
        seen items) ↔
      (items.map name).Nodup ∧ ∀ n ∈ seen, n ∉ items.map name := by
  induction items generalizing seen with
  | nil => exact iff_of_true clean_nil ⟨List.nodup_nil, fun _ _ => List.not_mem_nil⟩
  | cons item rest ih =>
    rw [eachSeen, clean_append, clean_reportIf, ih, List.map_cons, List.nodup_cons]
    constructor
    · rintro ⟨hfresh, hnodup, hseen⟩
      have hnew : name item ∉ seen := fun hmem => not_clean_duplicateError _ _ (hfresh hmem)
      refine ⟨⟨hseen _ (List.mem_append_right _ List.mem_cons_self), hnodup⟩, fun n hn hmem => ?_⟩
      rcases List.mem_cons.mp hmem with rfl | hmem
      · exact hnew hn
      · exact hseen n (List.mem_append_left _ hn) hmem
    · rintro ⟨⟨hnew, hnodup⟩, hseen⟩
      refine ⟨fun hmem => absurd List.mem_cons_self (hseen _ hmem), hnodup, fun n hn => ?_⟩
      rcases List.mem_append.mp hn with hold | hsame
      · exact fun hmem => hseen n hold (List.mem_cons_of_mem _ hmem)
      · rw [List.mem_singleton.mp hsame]
        exact hnew

end StateSpec.Compiler
