/-
  LOWERED LEASES — what the order of `renew_every`, `ttl` and `max_ttl` is worth behind the lowering.

  The validator compares the seconds that its own scanner finds, and only where the scanner finds some: a unit
  in front of the `T` makes it find none, and the durations go unchecked to the lowering, which skips the unit
  and goes on.  Nor does anything say that `renew_every` is not zero.  `leaseOrdered_iff` is what remains.
-/
import StateSpec.Compiler.Ir
import StateSpec.Compiler.ValidatorRuntime

namespace StateSpec.Compiler

/-- The order of an IR lease's durations. -/
def LeaseOrdered (lease : IrLease) : Prop :=
  0 < lease.renewEverySeconds ∧ lease.renewEverySeconds < lease.ttlSeconds ∧
    ∃ maxTtlSeconds, lease.maxTtlSeconds = some maxTtlSeconds ∧ lease.ttlSeconds ≤ maxTtlSeconds

/-- The days of a duration, and its hours, minutes and seconds behind the `T`, in 64 bits. -/
def countedDuration (value : Option Bytes) : Int64 := Int64.ofNat (value.elim 0 countedSeconds)

/-- The check reads the two durations: neither has a unit in front of the `T`. -/
def BothRead (first second : Option Bytes) : Prop :=
  (∀ text ∈ first, UnitsInTime text) ∧ ∀ text ∈ second, UnitsInTime text

instance (first second : Option Bytes) : Decidable (BothRead first second) :=
  inferInstanceAs (Decidable (_ ∧ _))

/-- A duration that the validator has nothing against. -/
theorem clean_validateDuration {range : SourceRange} {subject field : String} {value : Option Bytes}
    (h : Clean (validateDuration range subject field value)) :
    ∃ text, value = some text ∧ isDurationLiteral text = true := by
  rcases value with _ | text
  · exact absurd h (not_clean_requiredError _ _ _)
  · rw [validateDuration, clean_reportIf] at h
    refine ⟨text, rfl, ?_⟩
    by_contra hliteral
    exact not_clean_durationError _ _ _ (h (eq_false_of_ne_true hliteral))

/-- The check of two durations has a say where it reads both. -/
theorem clean_reportSeconds {first second : Bytes} (hfirst : isDurationLiteral first = true)
    (hsecond : isDurationLiteral second = true) {wrong : Int64 → Int64 → Bool} {range : SourceRange}
    {code message : String} :
    Clean (reportSeconds (some first) (some second) wrong (.error range code message)) ↔
      (BothRead (some first) (some second) →
        wrong (countedDuration (some first)) (countedDuration (some second)) = false) := by
  have hread : BothRead (some first) (some second) ↔ UnitsInTime first ∧ UnitsInTime second := by
    simp [BothRead]
  rw [hread, reportSeconds]
  dsimp only [Option.bind_some]
  rw [Validator.durationSeconds_eq hfirst, Validator.durationSeconds_eq hsecond,
    Ir.durationSeconds_eq hfirst, Ir.durationSeconds_eq hsecond]
  by_cases hunits : UnitsInTime first
  · by_cases hunits' : UnitsInTime second
    · simp [hunits, hunits', countedDuration]
    · simp [hunits, hunits']
  · simp [hunits]

/-- What the validator sees to in a lease: its durations are literals, and in order where they are read. -/
theorem clean_validateLease {lease : LeaseDecl} (h : Clean (validateLease lease)) :
    ∃ ttl renewEvery maxTtl, lease.ttl = some ttl ∧ lease.renewEvery = some renewEvery ∧
      lease.maxTtl = some maxTtl ∧ isDurationLiteral ttl = true ∧ isDurationLiteral renewEvery = true ∧
      isDurationLiteral maxTtl = true ∧
      (BothRead (some ttl) (some renewEvery) →
        countedDuration (some renewEvery) < countedDuration (some ttl)) ∧
      (BothRead (some ttl) (some maxTtl) →
        countedDuration (some ttl) ≤ countedDuration (some maxTtl)) := by
  simp only [validateLease, clean_append] at h
  obtain ⟨⟨⟨⟨⟨⟨⟨-, httl⟩, hrenew⟩, -⟩, -⟩, hmax⟩, hless⟩, hmost⟩ := h
  obtain ⟨ttl, hvttl, httl⟩ := clean_validateDuration httl
  obtain ⟨renewEvery, hvrenew, hrenew⟩ := clean_validateDuration hrenew
  obtain ⟨maxTtl, hvmax, hmax⟩ := clean_validateDuration hmax
  rw [hvttl, hvrenew, clean_reportSeconds httl hrenew] at hless
  rw [hvttl, hvmax, clean_reportSeconds httl hmax] at hmost
  refine ⟨ttl, renewEvery, maxTtl, hvttl, hvrenew, hvmax, httl, hrenew, hmax, fun hread => ?_, fun hread => ?_⟩
  · have hnot := of_decide_eq_false (hless hread)
    exact Int64.not_le.mp hnot
  · have hnot := of_decide_eq_false (hmost hread)
    exact Int64.not_lt.mp hnot

/-- **Accepted leases behind the lowering**: they are in order exactly when `renew_every` counts to something,
    and what the check did not read is in order by itself. -/
theorem leaseOrdered_iff {lease : LeaseDecl} (h : Clean (validateLease lease)) :
    LeaseOrdered (lowerLease lease) ↔
      0 < countedDuration lease.renewEvery ∧
      (BothRead lease.ttl lease.renewEvery ∨
        countedDuration lease.renewEvery < countedDuration lease.ttl) ∧
      (BothRead lease.ttl lease.maxTtl ∨ countedDuration lease.ttl ≤ countedDuration lease.maxTtl) := by
  obtain ⟨ttl, renewEvery, maxTtl, hvttl, hvrenew, hvmax, httl, hrenew, hmax, hless, hmost⟩ :=
    clean_validateLease h
  have hlowered : LeaseOrdered (lowerLease lease) ↔
      0 < countedDuration (some renewEvery) ∧
      countedDuration (some renewEvery) < countedDuration (some ttl) ∧
      countedDuration (some ttl) ≤ countedDuration (some maxTtl) := by
    simp [LeaseOrdered, lowerLease, hvttl, hvrenew, hvmax, Ir.durationSeconds_eq httl,
      Ir.durationSeconds_eq hrenew, Ir.durationSeconds_eq hmax, countedDuration]
  rw [hlowered, hvttl, hvrenew, hvmax]
  constructor
  · rintro ⟨hpos, hlt, hle⟩
    exact ⟨hpos, .inr hlt, .inr hle⟩
  · rintro ⟨hpos, hlt, hle⟩
    exact ⟨hpos, hlt.elim hless id, hle.elim hmost id⟩

/-- A lease of a minute. -/
def minuteLease : LeaseDecl :=
  { name := ascii "L", resource := some (ascii "r"), ttl := some (ascii "PT60S")
    renewEvery := some (ascii "PT20S"), holder := some (ascii "worker"), fencingToken := some true
    maxTtl := some (ascii "PT5M") }

/-- It stays in order. -/
theorem leaseOrdered_minute : LeaseOrdered (lowerLease minuteLease) :=
  (leaseOrdered_iff (by decide +kernel)).mpr (by decide +kernel)

/-- The check does not read `P1H`, and the lowering makes nothing of it. -/
theorem hour_in_front_unordered :
    ¬ ∀ lease : LeaseDecl, Clean (validateLease lease) → LeaseOrdered (lowerLease lease) := by
  intro hordered
  have hlease := hordered { minuteLease with maxTtl := some (ascii "P1H") } (by decide)
  obtain ⟨-, -, maxTtlSeconds, hmax, hle⟩ := hlease
  have hzero : maxTtlSeconds = 0 := by
    rw [← Option.some_inj, ← hmax]
    decide
  rw [hzero] at hle
  revert hle
  decide

end StateSpec.Compiler
