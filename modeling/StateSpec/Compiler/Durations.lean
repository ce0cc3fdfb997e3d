/-
  DURATIONS — five scanners of texts such as `PT30S` and `P1DT2H`.

  `is_duration_literal` accepts a text; `duration_seconds` of the validator, `duration_seconds` of the
  lowering, and the two scanners of the generators make seconds of it.
  1. The lowering adds what is in front of every `D`, and of an `H`, `M` or `S` behind the `T`
     (`Ir.durationSeconds_eq`); it reads digits in front of the `T` together with those behind.
  2. The validator gives the same number, or none where an `H`, `M` or `S` stands in front of the `T`
     (`Validator.durationSeconds_eq`).
  3. The generators want `PT` first, and leave out the days (`parseDurationSeconds_eq`).
  So the four agree on few of the texts that are accepted: `durationsAgree_iff`.
-/
import Mathlib.Algebra.BigOperators.Group.List.Basic
import Mathlib.Algebra.GroupWithZero.Nat
import Mathlib.Data.List.Basic
import StateSpec.Compiler.Lexer

namespace StateSpec.Compiler

/-! ## The scanners -/

/-- The loop of `is_duration_literal`. -/
def scanDurationLiteral : Bytes → (hasDigit hasUnit inTime : Bool) → Bool
  | [], hasDigit, hasUnit, _ => hasDigit && hasUnit
  | ch :: rest, hasDigit, hasUnit, inTime =>
    if isDigit ch then scanDurationLiteral rest true hasUnit inTime
    else if ch = byte 'T' then
      if inTime then false else scanDurationLiteral rest hasDigit hasUnit true
    else if ch = byte 'D' ∨ ch = byte 'H' ∨ ch = byte 'M' ∨ ch = byte 'S' then
      scanDurationLiteral rest hasDigit true inTime
    else false

def isDurationLiteral (value : Bytes) : Bool :=
  if value.length < 3 ∨ value.head? ≠ some (byte 'P') then false
  else scanDurationLiteral value.tail false false false

/-- `static_cast<std::int64_t>(ch - '0')`. -/
def digitValue (ch : UInt8) : Int64 := Int64.ofNat (ch.toNat - 48)

/-- The loop of the validator's `duration_seconds`. -/
def Validator.scanSeconds : Bytes → (total current : Int64) → (inTime : Bool) → Option Int64
  | [], total, _, _ => some total
  | ch :: rest, total, current, inTime =>
    if isDigit ch then Validator.scanSeconds rest total (current * 10 + digitValue ch) inTime
    else if ch = byte 'T' then Validator.scanSeconds rest total current true
    else if ch = byte 'D' then Validator.scanSeconds rest (total + current * 24 * 60 * 60) 0 inTime
    else if inTime ∧ ch = byte 'H' then Validator.scanSeconds rest (total + current * 60 * 60) 0 inTime
    else if inTime ∧ ch = byte 'M' then Validator.scanSeconds rest (total + current * 60) 0 inTime
    else if inTime ∧ ch = byte 'S' then Validator.scanSeconds rest (total + current) 0 inTime
    else none

/-- `duration_seconds` of `validator_leases.cpp`. -/
def Validator.durationSeconds (text : Bytes) : Option Int64 :=
  if isDurationLiteral text then Validator.scanSeconds text.tail 0 0 false else none

/-- The loop of the lowering's `duration_seconds`. -/
def Ir.scanSeconds : Bytes → (total current : Int64) → (inTime : Bool) → Int64
  | [], total, _, _ => total
  | ch :: rest, total, current, inTime =>
    if isDigit ch then Ir.scanSeconds rest total (current * 10 + digitValue ch) inTime
    else if ch = byte 'T' then Ir.scanSeconds rest total current true
    else
      let total :=
        if ch = byte 'D' then total + current * 24 * 60 * 60
        else if inTime ∧ ch = byte 'H' then total + current * 60 * 60
        else if inTime ∧ ch = byte 'M' then total + current * 60
        else if inTime ∧ ch = byte 'S' then total + current
        else total
      Ir.scanSeconds rest total 0 inTime

/-- `duration_seconds` of `ir_runtime.cpp`. -/
def Ir.durationSeconds (value : Option Bytes) : Int64 :=
  match value with
  | some (first :: rest) => if first = byte 'P' then Ir.scanSeconds rest 0 0 false else 0
  | _ => 0

/-- The loop of the generators' scanners. -/
def scanTimeSeconds : Bytes → (total current : Int64) → Int64
  | [], total, _ => total
  | ch :: rest, total, current =>
    if isDigit ch then scanTimeSeconds rest total (current * 10 + digitValue ch)
    else
      let total :=
        if ch = byte 'H' then total + current * 3600
        else if ch = byte 'M' then total + current * 60
        else if ch = byte 'S' then total + current
        else total
      scanTimeSeconds rest total 0

/-- `parse_duration_seconds` of `generator_cpp_descriptor_support.cpp`. -/
def parseDurationSeconds (value : Option Bytes) : Int64 :=
  match value with
  | none => 0
  | some text =>
    if 3 ≤ text.length ∧ text.head? = some (byte 'P') ∧ text[1]? = some (byte 'T') then
      scanTimeSeconds (text.drop 2) 0 0
    else 0

/-- `parse_go_duration_seconds` of `generator_go_descriptor_support.cpp`. -/
def parseGoDurationSeconds (value : Option Bytes) : Int64 :=
  match value with
  | none => 0
  | some text =>
    if text.length < 3 ∨ text.head? ≠ some (byte 'P') ∨ text[1]? ≠ some (byte 'T') then 0
    else scanTimeSeconds (text.drop 2) 0 0

/-! ## What a text says -/

inductive DurationUnit where
  | day | hour | minute | second
deriving DecidableEq

def DurationUnit.seconds : DurationUnit → Nat
  | .day => 86400
  | .hour => 3600
  | .minute => 60
  | .second => 1

def DurationUnit.ofByte (ch : UInt8) : Option DurationUnit :=
  if ch = byte 'D' then some .day
  else if ch = byte 'H' then some .hour
  else if ch = byte 'M' then some .minute
  else if ch = byte 'S' then some .second
  else none

def DurationUnit.byte : DurationUnit → UInt8
  | .day => StateSpec.Compiler.byte 'D'
  | .hour => StateSpec.Compiler.byte 'H'
  | .minute => StateSpec.Compiler.byte 'M'
  | .second => StateSpec.Compiler.byte 'S'

/-- The units of a text and the numbers directly in front of them, where some digits of the first number
    have been read. -/
def componentsFrom (number : Nat) : Bytes → List (Nat × DurationUnit)
  | [] => []
  | ch :: rest =>
    if isDigit ch then componentsFrom (number * 10 + (ch.toNat - 48)) rest
    else
      match DurationUnit.ofByte ch with
      | none => componentsFrom 0 rest
      | some unit => (number, unit) :: componentsFrom 0 rest

def components (text : Bytes) : List (Nat × DurationUnit) := componentsFrom 0 text

/-- The seconds of some components. -/
def totalSeconds (parts : List (Nat × DurationUnit)) : Nat :=
  (parts.map fun part => part.1 * part.2.seconds).sum

/-- The sum of a text's components. -/
def durationValue (text : Bytes) : Nat := totalSeconds (components text)

/-- No `H`, `M` or `S` stands in front of the `T`. -/
def UnitsInTime (text : Bytes) : Prop :=
  ∀ ch ∈ text.takeWhile (· ≠ byte 'T'), ch ≠ byte 'H' ∧ ch ≠ byte 'M' ∧ ch ≠ byte 'S'

instance (text : Bytes) : Decidable (UnitsInTime text) :=
  inferInstanceAs (Decidable (∀ ch ∈ _, _))

/-- The text without its `T`: digits in front of it are read together with those behind. -/
def joined (text : Bytes) : Bytes := text.filter (· ≠ byte 'T')

/-- What the lowering counts: the days, and hours, minutes and seconds behind the `T`. -/
def countedFrom (number : Nat) (inTime : Bool) : Bytes → Nat
  | [] => 0
  | ch :: rest =>
    if isDigit ch then countedFrom (number * 10 + (ch.toNat - 48)) inTime rest
    else if ch = byte 'T' then countedFrom number true rest
    else
      match DurationUnit.ofByte ch with
      | none => countedFrom 0 inTime rest
      | some unit =>
        (if unit = .day ∨ inTime = true then number * unit.seconds else 0) + countedFrom 0 inTime rest

def countedSeconds (text : Bytes) : Nat := countedFrom 0 false text.tail

/-! ## One byte -/

theorem ofByte_eq_some {ch : UInt8} {unit : DurationUnit} (h : DurationUnit.ofByte ch = some unit) :
    ch = unit.byte := by
  unfold DurationUnit.ofByte at h
  split at h
  · cases h
    assumption
  split at h
  · cases h
    assumption
  split at h
  · cases h
    assumption
  split at h
  · cases h
    assumption
  · cases h

theorem ofByte_eq_none {ch : UInt8} (h : DurationUnit.ofByte ch = none) :
    ch ≠ byte 'D' ∧ ch ≠ byte 'H' ∧ ch ≠ byte 'M' ∧ ch ≠ byte 'S' := by
  unfold DurationUnit.ofByte at h
  split at h
  · cases h
  split at h
  · cases h
  split at h
  · cases h
  split at h
  · cases h
  · exact ⟨‹_›, ‹_›, ‹_›, ‹_›⟩

/-- `current * 24 * 60 * 60`. -/
theorem day_seconds (current : Int64) : current * 24 * 60 * 60 = current * 86400 := by
  rw [Int64.mul_assoc, Int64.mul_assoc]
  rfl

/-- `current * 60 * 60`. -/
theorem hour_seconds (current : Int64) : current * 60 * 60 = current * 3600 := by
  rw [Int64.mul_assoc]
  rfl

/-- The lowering at a unit. -/
theorem Ir.scanSeconds_unit {ch : UInt8} {unit : DurationUnit} (h : DurationUnit.ofByte ch = some unit)
    (rest : Bytes) (total current : Int64) (inTime : Bool) :
    Ir.scanSeconds (ch :: rest) total current inTime =
      Ir.scanSeconds rest
        (if unit = .day ∨ inTime = true then total + current * Int64.ofNat unit.seconds else total) 0
        inTime := by
  rw [ofByte_eq_some h]
  cases unit with
  | day =>
    show Ir.scanSeconds rest (total + current * 24 * 60 * 60) 0 inTime = _
    rw [day_seconds]
    rfl
  | hour =>
    cases inTime with
    | false => rfl
    | true =>
      show Ir.scanSeconds rest (total + current * 60 * 60) 0 true = _
      rw [hour_seconds]
      rfl
  | minute =>
    cases inTime with
    | false => rfl
    | true => rfl
  | second =>
    cases inTime with
    | false => rfl
    | true =>
      show Ir.scanSeconds rest (total + current) 0 true = Ir.scanSeconds rest (total + current * 1) 0 true
      rw [Int64.mul_one]

/-- The validator at a unit. -/
theorem Validator.scanSeconds_unit {ch : UInt8} {unit : DurationUnit}
    (h : DurationUnit.ofByte ch = some unit) (rest : Bytes) (total current : Int64) (inTime : Bool) :
    Validator.scanSeconds (ch :: rest) total current inTime =
      if unit = .day ∨ inTime = true then
        Validator.scanSeconds rest (total + current * Int64.ofNat unit.seconds) 0 inTime
      else none := by
  rw [ofByte_eq_some h]
  cases unit with
  | day =>
    show Validator.scanSeconds rest (total + current * 24 * 60 * 60) 0 inTime = _
    rw [day_seconds]
    rfl
  | hour =>
    cases inTime with
    | false => rfl
    | true =>
      show Validator.scanSeconds rest (total + current * 60 * 60) 0 true = _
      rw [hour_seconds]
      rfl
  | minute =>
    cases inTime with
    | false => rfl
    | true => rfl
  | second =>
    cases inTime with
    | false => rfl
    | true =>
      show Validator.scanSeconds rest (total + current) 0 true =
        Validator.scanSeconds rest (total + current * 1) 0 true
      rw [Int64.mul_one]

/-- The generators at a unit. -/
theorem scanTimeSeconds_unit {ch : UInt8} {unit : DurationUnit} (h : DurationUnit.ofByte ch = some unit)
    (rest : Bytes) (total current : Int64) :
    scanTimeSeconds (ch :: rest) total current =
      scanTimeSeconds rest
        (if unit = .day then total else total + current * Int64.ofNat unit.seconds) 0 := by
  have hdigit : isDigit unit.byte = false := by cases unit <;> decide
  have hseconds : Int64.ofNat DurationUnit.hour.seconds = 3600 ∧ Int64.ofNat DurationUnit.minute.seconds = 60 ∧
      Int64.ofNat DurationUnit.second.seconds = 1 := by decide
  obtain ⟨hhour, hminute, hsecond⟩ := hseconds
  rw [ofByte_eq_some h, scanTimeSeconds, hdigit, if_neg Bool.false_ne_true]
  dsimp only
  cases unit with
  | day => rw [if_neg (by decide), if_neg (by decide), if_neg (by decide), if_pos rfl]
  | hour => rw [hhour, if_pos (by decide), if_neg (by decide)]
  | minute => rw [hminute, if_neg (by decide), if_pos (by decide), if_neg (by decide)]
  | second =>
    rw [hsecond, Int64.mul_one, if_neg (by decide), if_neg (by decide), if_pos (by decide), if_neg (by decide)]

theorem isDigit_time : isDigit (byte 'T') = false := by decide

/-- A unit is neither a digit nor the `T`. -/
theorem unit_byte (unit : DurationUnit) : isDigit unit.byte = false ∧ unit.byte ≠ byte 'T' := by
  cases unit <;> decide

/-! ## What the scanners find -/

theorem read_digit (number : Nat) (ch : UInt8) :
    Int64.ofNat number * 10 + digitValue ch = Int64.ofNat (number * 10 + (ch.toNat - 48)) := by
  rw [Int64.ofNat_add, Int64.ofNat_mul]
  rfl

theorem add_unit (total number : Nat) (unit : DurationUnit) :
    Int64.ofNat total + Int64.ofNat number * Int64.ofNat unit.seconds =
      Int64.ofNat (total + number * unit.seconds) := by
  rw [Int64.ofNat_add, Int64.ofNat_mul]

theorem Ir.scanSeconds_eq (text : Bytes) (total number : Nat) (inTime : Bool) :
    Ir.scanSeconds text (Int64.ofNat total) (Int64.ofNat number) inTime =
      Int64.ofNat (total + countedFrom number inTime text) := by
  induction text generalizing total number inTime with
  | nil => rfl
  | cons ch rest ih =>
    rw [countedFrom]
    by_cases hdigit : isDigit ch = true
    · rw [Ir.scanSeconds, if_pos hdigit, if_pos hdigit, read_digit, ih]
    rw [if_neg hdigit]
    by_cases htime : ch = byte 'T'
    · rw [Ir.scanSeconds, if_neg hdigit, if_pos htime, if_pos htime, ih]
    rw [if_neg htime]
    rcases hunit : DurationUnit.ofByte ch with _ | unit
    · obtain ⟨hday, hhour, hminute, hsecond⟩ := ofByte_eq_none hunit
      rw [Ir.scanSeconds, if_neg hdigit, if_neg htime, if_neg hday, if_neg (fun h => hhour h.2),
        if_neg (fun h => hminute h.2), if_neg (fun h => hsecond h.2)]
      exact ih total 0 inTime
    · rw [Ir.scanSeconds_unit hunit]
      by_cases hcounts : unit = .day ∨ inTime = true
      · rw [if_pos hcounts, add_unit]
        show Ir.scanSeconds rest _ (Int64.ofNat 0) inTime = _
        rw [ih]
        simp only [if_pos hcounts, Nat.add_assoc]
      · rw [if_neg hcounts]
        show Ir.scanSeconds rest _ (Int64.ofNat 0) inTime = _
        rw [ih]
        simp only [if_neg hcounts, Nat.zero_add]

/-- Every byte is a digit, the `T`, or a unit. -/
def Readable (text : Bytes) : Prop :=
  ∀ ch ∈ text, isDigit ch = true ∨ ch = byte 'T' ∨ DurationUnit.ofByte ch ≠ none

theorem unitsInTime_cons {ch : UInt8} (rest : Bytes) (h : ch ≠ byte 'T') : UnitsInTime (ch :: rest) ↔
    (ch ≠ byte 'H' ∧ ch ≠ byte 'M' ∧ ch ≠ byte 'S') ∧ UnitsInTime rest := by
  have hkeep : (ch :: rest).takeWhile (· ≠ byte 'T') = ch :: rest.takeWhile (· ≠ byte 'T') := by
    rw [List.takeWhile_cons, if_pos (decide_eq_true h)]
  rw [UnitsInTime, hkeep, List.forall_mem_cons, UnitsInTime]

theorem unitsInTime_time (rest : Bytes) : UnitsInTime (byte 'T' :: rest) := by
  have hnone : (byte 'T' :: rest).takeWhile (· ≠ byte 'T') = [] := by
    rw [List.takeWhile_cons, if_neg (by simp)]
  rw [UnitsInTime, hnone]
  exact nofun

theorem unitsInTime_digit {ch : UInt8} (rest : Bytes) (h : isDigit ch = true) :
    UnitsInTime (ch :: rest) ↔ UnitsInTime rest := by
  have hother : ∀ ch', isDigit ch' = false → ch ≠ ch' := by
    rintro ch' hch' rfl
    rw [h] at hch'
    cases hch'
  rw [unitsInTime_cons rest (hother _ isDigit_time)]
  exact and_iff_right ⟨hother _ (by decide), hother _ (by decide), hother _ (by decide)⟩

theorem unitsInTime_unit {ch : UInt8} {unit : DurationUnit} (rest : Bytes)
    (h : DurationUnit.ofByte ch = some unit) :
    UnitsInTime (ch :: rest) ↔ unit = .day ∧ UnitsInTime rest := by
  rw [ofByte_eq_some h, unitsInTime_cons rest (unit_byte unit).2]
  cases unit <;> simp [DurationUnit.byte, byte]

/-- The validator finds what the lowering does, or nothing. -/
theorem Validator.scanSeconds_eq (text : Bytes) (total current : Int64) (inTime : Bool)
    (hread : Readable text) : Validator.scanSeconds text total current inTime =
      if inTime = true ∨ UnitsInTime text then some (Ir.scanSeconds text total current inTime) else none := by
  induction text generalizing total current inTime with
  | nil =>
    rw [if_pos (.inr (by simp [UnitsInTime]))]
    rfl
  | cons ch rest ih =>
    have hrest : Readable rest := fun ch' hmem => hread ch' (List.mem_cons_of_mem _ hmem)
    by_cases hdigit : isDigit ch = true
    · rw [Validator.scanSeconds, Ir.scanSeconds, if_pos hdigit, if_pos hdigit, ih _ _ _ hrest]
      simp only [unitsInTime_digit rest hdigit]
    by_cases htime : ch = byte 'T'
    · subst htime
      rw [Validator.scanSeconds, Ir.scanSeconds, if_neg hdigit, if_neg hdigit, if_pos rfl, if_pos rfl,
        ih _ _ _ hrest, if_pos (.inl rfl), if_pos (.inr (unitsInTime_time rest))]
    obtain ⟨unit, hunit⟩ := Option.ne_none_iff_exists'.mp
      (((hread ch List.mem_cons_self).resolve_left hdigit).resolve_left htime)
    rw [Validator.scanSeconds_unit hunit, Ir.scanSeconds_unit hunit, ih _ _ _ hrest]
    simp only [unitsInTime_unit rest hunit]
    by_cases hcounts : unit = .day ∨ inTime = true
    · rw [if_pos hcounts, if_pos hcounts]
      rcases hcounts with rfl | rfl
      · simp
      · simp
    · rw [if_neg hcounts, if_neg]
      tauto

/-- Where its units are in time, the lowering adds the components of the text without its `T`. -/
theorem countedFrom_eq (text : Bytes) (number : Nat) (inTime : Bool) (hread : Readable text)
    (h : inTime = true ∨ UnitsInTime text) :
    countedFrom number inTime text = totalSeconds (componentsFrom number (joined text)) := by
  induction text generalizing number inTime with
  | nil => rfl
  | cons ch rest ih =>
    have hrest : Readable rest := fun ch' hmem => hread ch' (List.mem_cons_of_mem _ hmem)
    have hkeep : ch ≠ byte 'T' → joined (ch :: rest) = ch :: joined rest := by
      intro hne
      rw [joined, List.filter_cons_of_pos (by simpa using hne), joined]
    rw [countedFrom]
    by_cases hdigit : isDigit ch = true
    · have hne : ch ≠ byte 'T' := by
        rintro rfl
        rw [isDigit_time] at hdigit
        cases hdigit
      rw [if_pos hdigit, hkeep hne, componentsFrom, if_pos hdigit]
      exact ih _ _ hrest (h.imp_right (unitsInTime_digit rest hdigit).mp)
    rw [if_neg hdigit]
    by_cases htime : ch = byte 'T'
    · rw [if_pos htime, ih _ _ hrest (.inl rfl), htime, joined, joined,
        List.filter_cons_of_neg (by simp)]
    obtain ⟨unit, hunit⟩ := Option.ne_none_iff_exists'.mp
      (((hread ch List.mem_cons_self).resolve_left hdigit).resolve_left htime)
    rw [unitsInTime_unit rest hunit] at h
    have hcounts : unit = .day ∨ inTime = true := by tauto
    rw [if_neg htime, hkeep htime, componentsFrom, if_neg hdigit, hunit]
    dsimp only
    rw [if_pos hcounts, ih 0 inTime hrest (by tauto), totalSeconds, totalSeconds, List.map_cons,
      List.sum_cons]

theorem scanTimeSeconds_eq (text : Bytes) (total number : Nat) :
    scanTimeSeconds text (Int64.ofNat total) (Int64.ofNat number) =
      Int64.ofNat (total + totalSeconds ((componentsFrom number text).filter (·.2 ≠ .day))) := by
  induction text generalizing total number with
  | nil => rfl
  | cons ch rest ih =>
    rw [componentsFrom]
    by_cases hdigit : isDigit ch = true
    · rw [scanTimeSeconds, if_pos hdigit, if_pos hdigit, read_digit, ih]
    rw [if_neg hdigit]
    rcases hunit : DurationUnit.ofByte ch with _ | unit
    · obtain ⟨-, hhour, hminute, hsecond⟩ := ofByte_eq_none hunit
      rw [scanTimeSeconds, if_neg hdigit, if_neg hhour, if_neg hminute, if_neg hsecond]
      exact ih total 0
    · rw [scanTimeSeconds_unit hunit]
      dsimp only
      by_cases hday : unit = .day
      · rw [if_pos hday, List.filter_cons_of_neg (by simp [hday])]
        exact ih total 0
      · rw [if_neg hday, add_unit, List.filter_cons_of_pos (by simp [hday]), totalSeconds, List.map_cons,
          List.sum_cons, ← Nat.add_assoc]
        exact ih _ 0

/-! ## What is accepted -/

theorem scanDurationLiteral_reads {text : Bytes} {hasDigit hasUnit inTime : Bool}
    (h : scanDurationLiteral text hasDigit hasUnit inTime = true) :
    Readable text ∧ (inTime = true → byte 'T' ∉ text) := by
  induction text generalizing hasDigit hasUnit inTime with
  | nil => exact ⟨nofun, fun _ => List.not_mem_nil⟩
  | cons ch rest ih =>
    rw [scanDurationLiteral] at h
    have hcons : Readable rest → (isDigit ch = true ∨ ch = byte 'T' ∨ DurationUnit.ofByte ch ≠ none) →
        Readable (ch :: rest) := fun hrest hch => List.forall_mem_cons.mpr ⟨hch, hrest⟩
    by_cases hdigit : isDigit ch = true
    · rw [if_pos hdigit] at h
      obtain ⟨hread, hnone⟩ := ih h
      refine ⟨hcons hread (.inl hdigit), fun htime hmem => ?_⟩
      rcases List.mem_cons.mp hmem with rfl | hmem
      · rw [isDigit_time] at hdigit
        cases hdigit
      · exact hnone htime hmem
    rw [if_neg hdigit] at h
    by_cases htime : ch = byte 'T'
    · rw [if_pos htime] at h
      cases inTime with
      | true => cases h
      | false =>
        obtain ⟨hread, -⟩ := ih h
        exact ⟨hcons hread (.inr (.inl htime)), nofun⟩
    rw [if_neg htime] at h
    by_cases hunit : ch = byte 'D' ∨ ch = byte 'H' ∨ ch = byte 'M' ∨ ch = byte 'S'
    · rw [if_pos hunit] at h
      obtain ⟨hread, hnone⟩ := ih h
      refine ⟨hcons hread (.inr (.inr ?_)), fun hin hmem => ?_⟩
      · rcases hunit with rfl | rfl | rfl | rfl <;> decide
      · rcases List.mem_cons.mp hmem with rfl | hmem
        · exact htime rfl
        · exact hnone hin hmem
    · rw [if_neg hunit] at h
      cases h

/-- What is accepted: a `P` and some readable bytes, with at most one `T`. -/
theorem isDurationLiteral_reads {text : Bytes} (h : isDurationLiteral text = true) :
    ∃ rest, text = byte 'P' :: rest ∧ 3 ≤ text.length ∧ Readable rest ∧
      ∀ rest', rest = byte 'T' :: rest' → byte 'T' ∉ rest' := by
  rw [isDurationLiteral] at h
  by_cases hshape : text.length < 3 ∨ text.head? ≠ some (byte 'P')
  · rw [if_pos hshape] at h
    cases h
  rw [if_neg hshape] at h
  rw [not_or, Nat.not_lt, not_not] at hshape
  obtain ⟨hlength, hhead⟩ := hshape
  rcases text with _ | ⟨first, rest⟩
  · cases hhead
  rw [List.head?_cons, Option.some.injEq] at hhead
  refine ⟨rest, by rw [hhead], hlength, (scanDurationLiteral_reads h).1, ?_⟩
  rintro rest' rfl
  have htime : scanDurationLiteral rest' false false true = true := h
  exact (scanDurationLiteral_reads htime).2 rfl

/-! ## Where they agree -/

/-- The four functions find the sum of the components of a text. -/
def DurationsAgree (text : Bytes) : Prop :=
  ∃ n : Int64, n.toInt = durationValue text ∧ Validator.durationSeconds text = some n ∧
    Ir.durationSeconds (some text) = n ∧ parseDurationSeconds (some text) = n ∧
    parseGoDurationSeconds (some text) = n

theorem parseGoDurationSeconds_eq (value : Option Bytes) :
    parseGoDurationSeconds value = parseDurationSeconds value := by
  rcases value with _ | text
  · rfl
  rw [parseGoDurationSeconds, parseDurationSeconds]
  by_cases hshape : 3 ≤ text.length ∧ text.head? = some (byte 'P') ∧ text[1]? = some (byte 'T')
  · rw [if_pos hshape, if_neg]
    rw [not_or, not_or, Nat.not_lt, not_not, not_not]
    exact hshape
  · rw [if_neg hshape, if_pos]
    rw [← Nat.not_le]
    tauto

theorem Ir.durationSeconds_eq {text : Bytes} (h : isDurationLiteral text = true) :
    Ir.durationSeconds (some text) = Int64.ofNat (countedSeconds text) := by
  obtain ⟨rest, rfl, -⟩ := isDurationLiteral_reads h
  show Ir.scanSeconds rest (Int64.ofNat 0) (Int64.ofNat 0) false = _
  rw [Ir.scanSeconds_eq, Nat.zero_add]
  rfl

theorem unitsInTime_tail (rest : Bytes) : UnitsInTime (byte 'P' :: rest) ↔ UnitsInTime rest := by
  rw [unitsInTime_cons rest (by decide)]
  exact and_iff_right (by decide)

theorem Validator.durationSeconds_eq {text : Bytes} (h : isDurationLiteral text = true) :
    Validator.durationSeconds text =
      if UnitsInTime text then some (Ir.durationSeconds (some text)) else none := by
  rw [Validator.durationSeconds, if_pos h]
  obtain ⟨rest, rfl, -, hread, -⟩ := isDurationLiteral_reads h
  rw [List.tail_cons, Validator.scanSeconds_eq rest 0 0 false hread]
  simp only [unitsInTime_tail, Bool.false_eq_true, false_or]
  rfl

/-- Where its units are in time, what the lowering counts are the components of the text without its
    `T`. -/
theorem countedSeconds_eq {text : Bytes} (h : isDurationLiteral text = true) (hunits : UnitsInTime text) :
    countedSeconds text = durationValue (joined text) := by
  obtain ⟨rest, rfl, -, hread, -⟩ := isDurationLiteral_reads h
  exact countedFrom_eq rest 0 false hread (.inr ((unitsInTime_tail rest).mp hunits))

/-- The generators leave out the days. -/
theorem parseDurationSeconds_eq {text : Bytes} (h : isDurationLiteral text = true) :
    parseDurationSeconds (some text) =
      if text[1]? = some (byte 'T') then
        Int64.ofNat (totalSeconds ((components text).filter (·.2 ≠ .day)))
      else 0 := by
  obtain ⟨rest, rfl, hlength, -, -⟩ := isDurationLiteral_reads h
  rw [parseDurationSeconds]
  by_cases htime : (byte 'P' :: rest)[1]? = some (byte 'T')
  · rw [if_pos htime, if_pos ⟨hlength, rfl, htime⟩]
    rcases rest with _ | ⟨first, rest⟩
    · cases htime
    obtain rfl : first = byte 'T' := Option.some.inj htime
    show scanTimeSeconds rest (Int64.ofNat 0) (Int64.ofNat 0) = _
    rw [scanTimeSeconds_eq, Nat.zero_add]
    rfl
  · rw [if_neg htime, if_neg (fun hshape => htime hshape.2.2)]

theorem totalSeconds_cons (part : Nat × DurationUnit) (parts : List (Nat × DurationUnit)) :
    totalSeconds (part :: parts) = part.1 * part.2.seconds + totalSeconds parts := by
  rw [totalSeconds, List.map_cons, List.sum_cons, totalSeconds]

theorem totalSeconds_filter_le (parts : List (Nat × DurationUnit)) :
    totalSeconds (parts.filter (·.2 ≠ .day)) ≤ totalSeconds parts := by
  induction parts with
  | nil => exact Nat.le_refl _
  | cons part rest ih =>
    by_cases hday : part.2 = .day
    · rw [List.filter_cons_of_neg (by simpa using hday), totalSeconds_cons]
      omega
    · rw [List.filter_cons_of_pos (by simpa using hday), totalSeconds_cons, totalSeconds_cons]
      omega

/-- Leaving out the days changes nothing when there are none. -/
theorem totalSeconds_filter_eq_iff (parts : List (Nat × DurationUnit)) :
    totalSeconds (parts.filter (·.2 ≠ .day)) = totalSeconds parts ↔
      ∀ part ∈ parts, part.2 = .day → part.1 = 0 := by
  induction parts with
  | nil => simp [totalSeconds]
  | cons part rest ih =>
    have hle := totalSeconds_filter_le rest
    rw [List.forall_mem_cons, ← ih]
    by_cases hday : part.2 = .day
    · rw [List.filter_cons_of_neg (by simpa using hday), totalSeconds_cons, hday]
      show _ = part.1 * 86400 + _ ↔ _
      have hzero : (DurationUnit.day = .day → part.1 = 0) ↔ part.1 = 0 := by simp
      rw [hzero]
      omega
    · rw [List.filter_cons_of_pos (by simpa using hday), totalSeconds_cons, totalSeconds_cons]
      have hother : part.2 = .day → part.1 = 0 := fun h => absurd h hday
      rw [Nat.add_left_cancel_iff, and_iff_right hother]

/-- With the `T` first, the text reads as it does without it. -/
theorem durationValue_joined {text : Bytes} (h : isDurationLiteral text = true)
    (htime : text[1]? = some (byte 'T')) : durationValue (joined text) = durationValue text := by
  obtain ⟨rest, rfl, -, -, honce⟩ := isDurationLiteral_reads h
  rcases rest with _ | ⟨first, rest⟩
  · cases htime
  obtain rfl : first = byte 'T' := Option.some.inj htime
  have hrest : rest.filter (· ≠ byte 'T') = rest := by
    rw [List.filter_eq_self]
    intro ch hmem
    have hne : ch ≠ byte 'T' := by
      rintro rfl
      exact honce rest rfl hmem
    simpa using hne
  have hjoined : joined (byte 'P' :: byte 'T' :: rest) = byte 'P' :: rest := by
    rw [joined, List.filter_cons_of_pos (by decide), List.filter_cons_of_neg (by decide), hrest]
  rw [hjoined]
  rfl

theorem ofNat_eq_zero_iff (n : Nat) : Int64.ofNat n = 0 ↔ 2 ^ 64 ∣ n := by
  have hsize : Int64.size = 2 ^ 64 := by decide
  rw [← Int64.toInt_inj, Int64.toInt_ofNat', Int64.toInt_zero, hsize]
  constructor
  · intro hzero
    have hdvd := Int.dvd_of_bmod_eq_zero hzero
    omega
  · intro hdvd
    apply Int.bmod_eq_zero_of_dvd
    omega

/-- **Where the four agree**: the text begins with `PT` and has no days; or it says nothing at all, has no
    `H`, `M` or `S` in front of a `T`, and no digits in front of it that make a number behind it. -/
theorem durationsAgree_iff {text : Bytes} (h : isDurationLiteral text = true)
    (hfits : durationValue text < 2 ^ 63) : DurationsAgree text ↔
      (text[1]? = some (byte 'T') ∧ ∀ part ∈ components text, part.2 = .day → part.1 = 0) ∨
      (durationValue text = 0 ∧ UnitsInTime text ∧ 2 ^ 64 ∣ durationValue (joined text)) := by
  have hvalue : ∀ n : Int64, n.toInt = durationValue text ↔ n = Int64.ofNat (durationValue text) := by
    intro n
    rw [← Int64.toInt_inj, Int64.toInt_ofNat_of_lt hfits]
  by_cases htime : text[1]? = some (byte 'T')
  · -- the `T` comes first: all find the components, but for the days
    have hunits : UnitsInTime text := by
      obtain ⟨rest, rfl, -⟩ := isDurationLiteral_reads h
      rcases rest with _ | ⟨first, rest⟩
      · cases htime
      obtain rfl : first = byte 'T' := Option.some.inj htime
      exact (unitsInTime_tail _).mpr (unitsInTime_time rest)
    have hir : Ir.durationSeconds (some text) = Int64.ofNat (durationValue text) := by
      rw [Ir.durationSeconds_eq h, countedSeconds_eq h hunits, durationValue_joined h htime]
    have hle := totalSeconds_filter_le (components text)
    have hdays : parseDurationSeconds (some text) = Int64.ofNat (durationValue text) ↔
        ∀ part ∈ components text, part.2 = .day → part.1 = 0 := by
      rw [parseDurationSeconds_eq h, if_pos htime, ← Int64.toInt_inj, Int64.toInt_ofNat_of_lt hfits,
        Int64.toInt_ofNat_of_lt (Nat.lt_of_le_of_lt hle hfits), Int.natCast_inj]
      exact totalSeconds_filter_eq_iff (components text)
    constructor
    · rintro ⟨n, hn, -, -, hparse, -⟩
      rw [(hvalue n).mp hn] at hparse
      exact .inl ⟨htime, hdays.mp hparse⟩
    · intro hcase
      have hnone : ∀ part ∈ components text, part.2 = .day → part.1 = 0 := by
        rcases hcase with ⟨-, hnone⟩ | ⟨hzero, -, -⟩
        · exact hnone
        · rw [← totalSeconds_filter_eq_iff]
          unfold durationValue at hzero
          omega
      have hparse := hdays.mpr hnone
      refine ⟨_, (hvalue _).mpr rfl, ?_, hir, hparse, (parseGoDurationSeconds_eq _).trans hparse⟩
      rw [Validator.durationSeconds_eq h, if_pos hunits, hir]
  · -- the generators find nothing
    have hparse : parseDurationSeconds (some text) = 0 := by
      rw [parseDurationSeconds_eq h, if_neg htime]
    constructor
    · rintro ⟨n, hn, hvalidator, hir, hn', -⟩
      rw [hparse] at hn'
      subst hn'
      have hzero : durationValue text = 0 := by
        rw [Int64.toInt_zero] at hn
        omega
      have hunits : UnitsInTime text := by
        by_contra hunits
        rw [Validator.durationSeconds_eq h, if_neg hunits] at hvalidator
        cases hvalidator
      rw [Ir.durationSeconds_eq h, countedSeconds_eq h hunits, ofNat_eq_zero_iff] at hir
      exact .inr ⟨hzero, hunits, hir⟩
    · rintro (⟨htime', -⟩ | ⟨hzero, hunits, hdvd⟩)
      · exact absurd htime' htime
      · have hir : Ir.durationSeconds (some text) = 0 := by
          rw [Ir.durationSeconds_eq h, countedSeconds_eq h hunits, ofNat_eq_zero_iff]
          exact hdvd
        refine ⟨0, by rw [hzero]; rfl, ?_, hir, hparse, (parseGoDurationSeconds_eq _).trans hparse⟩
        rw [Validator.durationSeconds_eq h, if_pos hunits, hir]

/-- They agree on ninety minutes. -/
theorem durationsAgree_hour : DurationsAgree (ascii "PT1H30M") :=
  (durationsAgree_iff (by decide) (by decide)).mpr (.inl (by decide))

/-- A day is nothing for the generators. -/
theorem day_disagrees : ¬ ∀ text, isDurationLiteral text = true → durationValue text < 2 ^ 63 →
    DurationsAgree text := by
  intro hagree
  obtain ⟨n, hn, -, -, hparse, -⟩ := hagree (ascii "P1D") (by decide) (by decide)
  have hzero : parseDurationSeconds (some (ascii "P1D")) = 0 := by decide
  rw [hzero] at hparse
  rw [← hparse] at hn
  revert hn
  decide

end StateSpec.Compiler
