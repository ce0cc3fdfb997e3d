/-
  JSON DOCUMENTS — `bindings/cpp/json.hpp`, and the part of `json.rs`, `json.go` and `Json.java`
  that the stores read.

  A document is a tree of the seven alternatives of `Json::Value`.  The type of decimals differs
  from binding to binding (`double`, `f64`, `float64`, `BigDecimal`), so it is a parameter `δ`; what
  a binding's own library does with a decimal — print it, compare it — is the class `Decimal`.
  Integers are `std::int64_t` in the source; nothing here computes with them, so they are `Int`.
  An object is a `std::map`: its members are listed in key order, each key once, and `emplace` /
  `object` build such lists.

  `same` is the defaulted `operator==`; it decides equality when the decimals' comparison does
  (`same_iff`), and `find_ofMembers` is the one fact the codecs need: what was put into an object under
  a name is found under that name.
-/
import StateSpec.Lib.Bytes

namespace StateSpec

/-- What a binding's standard library does with its decimals. -/
class Decimal (δ : Type) where
  /-- The text the number formatter prints. -/
  print : δ → Bytes
  /-- `operator==`. -/
  same : δ → δ → Bool

/-- Documents without decimals. -/
instance : Decimal Empty := ⟨Empty.elim, Empty.elim⟩

/-- Whole numbers for decimals. -/
instance : Decimal Int := ⟨Bytes.decimalInt, (· == ·)⟩

/-- `static_cast<double>` of a `std::int64_t`. -/
class Widening (δ : Type) where
  ofInt : Int → δ

instance : Widening Int := ⟨id⟩

/-- `class Json`. -/
inductive Json (δ : Type) where
  | null
  | bool (value : Bool)
  | int64 (value : Int)
  | double (value : δ)
  | string (value : Bytes)
  | array (values : List (Json δ))
  | object (members : List (Bytes × Json δ))

namespace Json

variable {δ : Type}

instance : Inhabited (Json δ) := ⟨.null⟩

/-! ## Objects -/

/-- `std::map::emplace`: insert in key order unless the key is there already. -/
def emplace (key : Bytes) (value : Json δ) : List (Bytes × Json δ) → List (Bytes × Json δ)
  | [] => [(key, value)]
  | (k, v) :: rest =>
    match compare key k with
    | .lt => (key, value) :: (k, v) :: rest
    | .eq => (k, v) :: rest
    | .gt => (k, v) :: emplace key value rest

/-- `Json::object` of a list of members. -/
def ofMembers (members : List (Bytes × Json δ)) : Json δ :=
  .object (members.foldl (fun object m => emplace m.1 m.2 object) [])

/-- `Json::find`: `none` for what is not an object. -/
def find (json : Json δ) (key : Bytes) : Option (Json δ) :=
  match json with
  | .object members => members.lookup key
  | _ => none

theorem lookup_emplace_ne {key k : Bytes} (h : k ≠ key) (value : Json δ)
    (members : List (Bytes × Json δ)) :
    (emplace key value members).lookup k = members.lookup k := by
  have hkey : (k == key) = false := by simpa using h
  induction members with
  | nil => simp [emplace, List.lookup_cons, hkey]
  | cons m rest ih =>
    obtain ⟨k', v'⟩ := m
    simp only [emplace]
    cases compare key k' with
    | lt => simp [List.lookup_cons, hkey]
    | eq => rfl
    | gt => simp only [List.lookup_cons, ih]

theorem lookup_emplace_self {key : Bytes} (value : Json δ) {members : List (Bytes × Json δ)}
    (h : members.lookup key = none) : (emplace key value members).lookup key = some value := by
  induction members with
  | nil => simp [emplace]
  | cons m rest ih =>
    obtain ⟨k', v'⟩ := m
    simp only [List.lookup_cons] at h
    cases hk : key == k' with
    | true => simp [hk] at h
    | false =>
      rw [hk] at h
      simp only [emplace]
      cases hc : compare key k' with
      | lt => simp
      | eq => exact absurd (Std.compare_eq_iff_eq.mp hc) (by simpa using hk)
      | gt => simp only [List.lookup_cons, hk, ih h]

/-- Members in key order, each key once. -/
def InKeyOrder (members : List (Bytes × Json δ)) : Prop :=
  members.Pairwise fun m m' => compare m.1 m'.1 = .lt

theorem inKeyOrder_emplace {members : List (Bytes × Json δ)} (h : InKeyOrder members) (key : Bytes)
    (value : Json δ) : InKeyOrder (emplace key value members) ∧
      ∀ m ∈ emplace key value members, m.1 = key ∨ m ∈ members := by
  induction members with
  | nil => exact ⟨List.pairwise_singleton _ _, fun m hm => Or.inl (by simp_all [emplace])⟩
  | cons m rest ih =>
    obtain ⟨k, v⟩ := m
    obtain ⟨hfirst, hrest⟩ := List.pairwise_cons.mp h
    simp only [emplace]
    cases hc : compare key k with
    | lt =>
      refine ⟨List.pairwise_cons.mpr ⟨fun m hm => ?_, h⟩, fun m hm => ?_⟩
      · rcases List.mem_cons.mp hm with rfl | hm
        · exact hc
        · exact Std.TransCmp.lt_trans hc (hfirst m hm)
      · rcases List.mem_cons.mp hm with rfl | hm
        · exact Or.inl rfl
        · exact Or.inr hm
    | eq => exact ⟨h, fun m hm => Or.inr hm⟩
    | gt =>
      obtain ⟨hordered, hmem⟩ := ih hrest
      refine ⟨List.pairwise_cons.mpr ⟨fun m hm => ?_, hordered⟩, fun m hm => ?_⟩
      · rcases hmem m hm with hkey | hm
        · exact hkey ▸ Std.OrientedCmp.lt_of_gt hc
        · exact hfirst m hm
      · rcases List.mem_cons.mp hm with rfl | hm
        · exact Or.inr List.mem_cons_self
        · exact (hmem m hm).imp_right (List.mem_cons_of_mem _)

/-- **A member stays what it was put as first.** -/
theorem lookup_emplace {members : List (Bytes × Json δ)} (h : InKeyOrder members) (key k : Bytes)
    (value : Json δ) : (emplace key value members).lookup k =
      (members.lookup k).or (if k = key then some value else none) := by
  by_cases hk : k = key
  · subst hk
    rw [if_pos rfl]
    cases hnew : members.lookup k with
    | none => rw [lookup_emplace_self value hnew, Option.none_or]
    | some old =>
      rw [Option.some_or]
      induction members with
      | nil => cases hnew
      | cons m rest ih =>
        obtain ⟨k', v'⟩ := m
        obtain ⟨hfirst, hrest⟩ := List.pairwise_cons.mp h
        simp only [emplace]
        cases hc : compare k k' with
        | lt =>
          -- every key is behind a new one that goes in front
          obtain ⟨front, back, hsplit, -⟩ := List.lookup_eq_some_iff.mp hnew
          have hmem : (k, old) ∈ (k', v') :: rest := by
            rw [hsplit]
            exact List.mem_append_right _ List.mem_cons_self
          have hlater : compare k k = .lt := by
            rcases List.mem_cons.mp hmem with heq | hmem
            · exact (Prod.mk.inj heq).1 ▸ hc
            · exact Std.TransCmp.lt_trans hc (hfirst _ hmem)
          have hself : compare k k = .eq := Std.ReflCmp.compare_self
          rw [hself] at hlater
          cases hlater
        | eq => exact hnew
        | gt =>
          have hne : (k == k') = false := by
            rw [beq_eq_false_iff_ne]
            rintro rfl
            have hself : compare k k = .eq := Std.ReflCmp.compare_self
            rw [hself] at hc
            cases hc
          rw [List.lookup_cons, hne] at hnew ⊢
          exact ih hrest hnew
  · rw [if_neg hk, Option.or_none, lookup_emplace_ne hk]

theorem lookup_foldl_emplace {object : List (Bytes × Json δ)} (h : InKeyOrder object)
    (members : List (Bytes × Json δ)) (key : Bytes) :
    (members.foldl (fun object m => emplace m.1 m.2 object) object).lookup key =
      (object.lookup key).or (members.lookup key) := by
  induction members generalizing object with
  | nil => rw [List.foldl_nil, List.lookup_nil, Option.or_none]
  | cons m rest ih =>
    rw [List.foldl_cons, ih (inKeyOrder_emplace h m.1 m.2).1, lookup_emplace h, Option.or_assoc,
      List.lookup_cons]
    congr 1
    by_cases hkey : key = m.1
    · rw [if_pos hkey, beq_iff_eq.mpr hkey, Option.some_or]
    · rw [if_neg hkey, beq_eq_false_iff_ne.mpr hkey, Option.none_or]

/-- **A member is found under its name**, and of several ones of one name the first. -/
theorem find_ofMembers (members : List (Bytes × Json δ)) (key : Bytes) :
    (ofMembers members).find key = members.lookup key := by
  rw [ofMembers, find, lookup_foldl_emplace List.Pairwise.nil, List.lookup_nil, Option.none_or]

/-- `object[key] = value`: replaces a member, or adds it in key order. -/
def assign (key : Bytes) (value : Json δ) : List (Bytes × Json δ) → List (Bytes × Json δ)
  | [] => [(key, value)]
  | (k, v) :: rest =>
    match compare key k with
    | .lt => (key, value) :: (k, v) :: rest
    | .eq => (key, value) :: rest
    | .gt => (k, v) :: assign key value rest

theorem lookup_assign (key k : Bytes) (value : Json δ) (members : List (Bytes × Json δ)) :
    (assign key value members).lookup k = if k = key then some value else members.lookup k := by
  by_cases h : k = key
  · subst h
    rw [if_pos rfl]
    induction members with
    | nil => simp [assign]
    | cons m rest ih =>
      obtain ⟨k', v'⟩ := m
      simp only [assign]
      cases hc : compare k k' with
      | lt => simp
      | eq => simp
      | gt =>
        have hne : (k == k') = false := by
          rw [beq_eq_false_iff_ne]
          rintro rfl
          rw [Std.compare_eq_iff_eq.mpr rfl] at hc
          cases hc
        simp only [List.lookup_cons, hne, ih]
  · rw [if_neg h]
    have hbeq : (k == key) = false := by simpa using h
    induction members with
    | nil => simp [assign, List.lookup_cons, hbeq]
    | cons m rest ih =>
      obtain ⟨k', v'⟩ := m
      simp only [assign]
      cases hc : compare key k' with
      | lt => simp [List.lookup_cons, hbeq]
      | eq =>
        obtain rfl := Std.compare_eq_iff_eq.mp hc
        simp only [List.lookup_cons, hbeq]
      | gt => simp only [List.lookup_cons, ih]

/-- The members of an object; of anything else, none. -/
def members : Json δ → List (Bytes × Json δ)
  | .object members => members
  | _ => []

theorem find_eq_lookup (json : Json δ) (key : Bytes) : json.find key = json.members.lookup key := by
  cases json <;> rfl

/-! ## Equality -/

mutual

/-- The defaulted `operator==` of the variant. -/
def same [Decimal δ] : Json δ → Json δ → Bool
  | .null, .null => true
  | .bool a, .bool b => a == b
  | .int64 a, .int64 b => a == b
  | .double a, .double b => Decimal.same a b
  | .string a, .string b => a == b
  | .array a, .array b => sameItems a b
  | .object a, .object b => sameMembers a b
  | _, _ => false

/-- `std::vector::operator==`. -/
def sameItems [Decimal δ] : List (Json δ) → List (Json δ) → Bool
  | [], [] => true
  | a :: as, b :: bs => same a b && sameItems as bs
  | _, _ => false

/-- `std::map::operator==`. -/
def sameMembers [Decimal δ] : List (Bytes × Json δ) → List (Bytes × Json δ) → Bool
  | [], [] => true
  | (k, a) :: as, (l, b) :: bs => (k == l && same a b) && sameMembers as bs
  | _, _ => false

end

mutual

/-- Where comparing decimals decides their equality, `operator==` decides equality. -/
theorem same_iff [Decimal δ] (hδ : ∀ a b : δ, Decimal.same a b = true ↔ a = b) :
    ∀ a b : Json δ, same a b = true ↔ a = b
  | .null, b => by cases b <;> simp [same]
  | .bool _, b => by cases b <;> simp [same]
  | .int64 _, b => by cases b <;> simp [same]
  | .double _, b => by cases b <;> simp [same, hδ]
  | .string _, b => by cases b <;> simp [same]
  | .array as, b => by
    cases b with
    | array bs => rw [same, sameItems_iff hδ as bs, Json.array.injEq]
    | _ => simp [same]
  | .object as, b => by
    cases b with
    | object bs => rw [same, sameMembers_iff hδ as bs, Json.object.injEq]
    | _ => simp [same]

theorem sameItems_iff [Decimal δ] (hδ : ∀ a b : δ, Decimal.same a b = true ↔ a = b) :
    ∀ as bs : List (Json δ), sameItems as bs = true ↔ as = bs
  | [], bs => by cases bs <;> simp [sameItems]
  | a :: as, [] => by simp [sameItems]
  | a :: as, b :: bs => by
    rw [sameItems, Bool.and_eq_true, same_iff hδ a b, sameItems_iff hδ as bs, List.cons.injEq]

theorem sameMembers_iff [Decimal δ] (hδ : ∀ a b : δ, Decimal.same a b = true ↔ a = b) :
    ∀ as bs : List (Bytes × Json δ), sameMembers as bs = true ↔ as = bs
  | [], bs => by cases bs <;> simp [sameMembers]
  | (k, a) :: as, [] => by simp [sameMembers]
  | (k, a) :: as, (l, b) :: bs => by
    rw [sameMembers, Bool.and_eq_true, Bool.and_eq_true, beq_iff_eq, same_iff hδ a b,
      sameMembers_iff hδ as bs, List.cons.injEq, Prod.mk.injEq]

end

/-- Equality of documents without decimals is decided by `operator==`. -/
instance : DecidableEq (Json Empty) := fun a b =>
  decidable_of_iff (same a b = true) (same_iff (fun a => a.elim) a b)

/-! ## Canonical text -/

/-- The lower-case hexadecimal digit of a nibble. -/
def hexDigit (n : UInt8) : UInt8 := if n < 10 then n + 48 else n + 87

/-- `append_escaped_string`, one byte at a time. -/
def escapeByte (c : UInt8) : Bytes :=
  if c = 34 then ascii "\\\""
  else if c = 92 then ascii "\\\\"
  else if c = 8 then ascii "\\b"
  else if c = 12 then ascii "\\f"
  else if c = 10 then ascii "\\n"
  else if c = 13 then ascii "\\r"
  else if c = 9 then ascii "\\t"
  else if c < 32 then ascii "\\u00" ++ [hexDigit (c >>> 4), hexDigit (c &&& 15)]
  else [c]

/-- `append_escaped_string`. -/
def escapedString (s : Bytes) : Bytes := 34 :: s.flatMap escapeByte ++ [34]

/-- `append_value(double)`: the printed number, with `.0` behind it when it reads as an integer. -/
def decimalText [Decimal δ] (value : δ) : Bytes :=
  let encoded := Decimal.print value
  if encoded.any (fun c => c == 46 || c == 101 || c == 69) then encoded else encoded ++ ascii ".0"

mutual

/-- The canonical text of a document, with `quote` as the encoding of a string. -/
def canonicalWith [Decimal δ] (quote : Bytes → Bytes) : Json δ → Bytes
  | .null => ascii "null"
  | .bool value => if value then ascii "true" else ascii "false"
  | .int64 value => Bytes.decimalInt value
  | .double value => decimalText value
  | .string value => quote value
  | .array values => ascii "[" ++ canonicalItems quote values ++ ascii "]"
  | .object members => ascii "\x7b" ++ canonicalMembers quote members ++ ascii "\x7d"

/-- The items of an array, separated by commas. -/
def canonicalItems [Decimal δ] (quote : Bytes → Bytes) : List (Json δ) → Bytes
  | [] => []
  | [value] => canonicalWith quote value
  | value :: rest => canonicalWith quote value ++ ascii "," ++ canonicalItems quote rest

/-- The members of an object, separated by commas. -/
def canonicalMembers [Decimal δ] (quote : Bytes → Bytes) : List (Bytes × Json δ) → Bytes
  | [] => []
  | [(key, value)] => quote key ++ ascii ":" ++ canonicalWith quote value
  | (key, value) :: rest =>
    quote key ++ ascii ":" ++ canonicalWith quote value ++ ascii "," ++
      canonicalMembers quote rest

end

/-- `canonical_string`. -/
def canonicalString [Decimal δ] (json : Json δ) : Bytes := canonicalWith escapedString json

example : canonicalString (ofMembers (δ := Empty) [(ascii "b", .array [.null, .int64 (-7)]),
    (ascii "a", .string (ascii "x\"y"))]) = ascii "\x7b\"a\":\"x\\\"y\",\"b\":[null,-7]\x7d" := by
  decide

end Json

end StateSpec
