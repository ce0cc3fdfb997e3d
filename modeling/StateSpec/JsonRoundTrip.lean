/-
  CANONICAL TEXTS ARE READ BACK — `canonical_string` and `Json::parse` of `bindings/cpp/json.hpp`.

  1. `Exact json` — a value of the source without doubles: its integers are `std::int64_t`s, its objects are
     `std::map`s.
  2. A canonical text says its document (`says_canonicalString`), so it is parsed to it.
  3. What a text without fractions and exponents is parsed to is exact (`exact_of_value`).
  4. ROUND TRIP (`json_roundTrip`): exact documents survive, so their canonical texts tell them apart, and the
     canonical text of what has been parsed stays as it is.
-/
import StateSpec.JsonGrammar

namespace StateSpec

/-! ## Numerals -/

namespace Bytes

theorem decimal_digit {n : Nat} (h : n < 10) : decimal n = [UInt8.ofNat (48 + n)] := by
  rw [decimal, Nat.toDigits_of_lt_base h]
  interval_cases n <;> decide

theorem decimal_append {n : Nat} (h : 10 ≤ n) : decimal n = decimal (n / 10) ++ [UInt8.ofNat (48 + n % 10)] := by
  have hlast := decimal_digit (Nat.mod_lt n (by decide : 0 < 10))
  rw [decimal, Nat.toDigits_of_lt_base (Nat.mod_lt n (by decide))] at hlast
  rw [decimal, Nat.toDigits_of_base_le (by decide) h, List.map_append, ← hlast]
  rfl

/-- A numeral stands for its number. -/
theorem foldl_decimal (n : Nat) :
    (decimal n).foldl (fun (value : Int) c => 10 * value + (c.toNat - 48)) 0 = n := by
  induction n using Nat.strong_induction_on with
  | _ n ih =>
  have hdigit : ∀ k : Nat, k < 10 → ((UInt8.ofNat (48 + k)).toNat : Int) - 48 = k := by
    intro k hk
    rw [UInt8.toNat_ofNat', Nat.mod_eq_of_lt (by omega)]
    omega
  by_cases h : n < 10
  · rw [decimal_digit h, List.foldl_cons, List.foldl_nil, hdigit n h]
    omega
  · rw [decimal_append (by omega), List.foldl_append, ih (n / 10) (by omega), List.foldl_cons, List.foldl_nil,
      hdigit (n % 10) (by omega)]
    omega

theorem decimal_ne_nil (n : Nat) : decimal n ≠ [] := by
  by_cases h : n < 10
  · rw [decimal_digit h]
    exact List.cons_ne_nil _ _
  · rw [decimal_append (by omega)]
    exact List.append_ne_nil_of_right_ne_nil _ (List.cons_ne_nil _ _)

/-- No numeral but that of zero starts with a '0'. -/
theorem head_decimal {n : Nat} (h : (decimal n).head? = some 48) : n = 0 := by
  induction n using Nat.strong_induction_on with
  | _ n ih =>
  by_cases hn : n < 10
  · rw [decimal_digit hn] at h
    interval_cases n
    · rfl
    all_goals exact absurd h (by decide)
  · rw [decimal_append (by omega), List.head?_append_of_ne_nil _ (decimal_ne_nil _)] at h
    have hzero := ih (n / 10) (by omega) h
    omega

end Bytes

namespace JsonGrammar

open JsonParser

variable {δ : Type}

/-- A value of the source without doubles. -/
inductive Exact : Json δ → Prop where
  | null : Exact .null
  | bool (value : Bool) : Exact (.bool value)
  | int64 {value : Int} : -2 ^ 63 ≤ value → value < 2 ^ 63 → Exact (.int64 value)
  | string (value : Bytes) : Exact (.string value)
  | array {values : List (Json δ)} : (∀ value ∈ values, Exact value) → Exact (.array values)
  | object {members : List (Bytes × Json δ)} : (members.map Prod.fst).Pairwise (fun k l => compare k l = .lt) →
    (∀ member ∈ members, Exact member.2) → Exact (.object members)

/-! ## Canonical texts say their documents -/

theorem digits_decimal (n : Nat) : Digits (Bytes.decimal n) := by
  refine ⟨Bytes.decimal_ne_nil n, fun c hc => ?_, fun h => ?_⟩
  · obtain ⟨digit, hdigit, rfl⟩ := List.mem_map.mp hc
    have hrange := Bytes.digit_toNat (Bytes.isDigit_of_mem_toDigits hdigit)
    rw [isDigit, Bool.and_eq_true, decide_eq_true_eq, decide_eq_true_eq, UInt8.le_iff_toNat_le,
      UInt8.le_iff_toNat_le, UInt8.toNat_ofNat', Nat.mod_eq_of_lt (by omega)]
    exact hrange
  · rw [Bytes.head_decimal h]
    rfl

/-- The text of an integer is its numeral. -/
theorem value_decimalInt {value : Int} (hlow : -2 ^ 63 ≤ value) (hhigh : value < 2 ^ 63) (rest : Bytes) :
    Value (δ := δ) (Bytes.decimalInt value ++ rest) (.int64 value) rest := by
  have hread : ∀ sign : Bytes, (if sign = [] then (value.natAbs : Int) else -value.natAbs) = value →
      fromChars sign (Bytes.decimal value.natAbs) = .ok value := by
    intro sign hsign
    rw [fromChars]
    simp only [Bytes.foldl_decimal, hsign]
    exact if_pos ⟨hlow, hhigh⟩
  rw [Bytes.decimalInt]
  split
  · refine @Value.whole δ [45] _ _ rest ⟨.inr rfl, digits_decimal _⟩ (hread [45] ?_)
    rw [if_neg (List.cons_ne_nil _ _)]
    omega
  · refine @Value.whole δ [] _ _ rest ⟨.inl rfl, digits_decimal _⟩ (hread [] ?_)
    rw [if_pos rfl]
    omega

/-- An escaped string behind its opening quote. -/
theorem exists_chars (value rest : Bytes) :
    ∃ name, Json.escapedString value ++ rest = 34 :: name ∧ Chars name value rest := by
  obtain ⟨name, hgap, hchars⟩ := parseString_iff.mp (parseString_escapedString value rest)
  rw [Json.escapedString, List.append_assoc, List.cons_append] at hgap ⊢
  exact ⟨name, (gap_cons (by decide) hgap).symm, hchars⟩

/-- Names in order stay where they are. -/
theorem ofMembers_ordered {members : List (Bytes × Json δ)}
    (h : (members.map Prod.fst).Pairwise fun k l => compare k l = .lt) :
    Json.ofMembers members = .object members := by
  have hlast : ∀ (front : List (Bytes × Json δ)) (key : Bytes) (value : Json δ),
      (∀ member ∈ front, compare member.1 key = .lt) →
      Json.emplace key value front = front ++ [(key, value)] := by
    intro front key value hfront
    induction front with
    | nil => rfl
    | cons member front ih =>
      obtain ⟨k, v⟩ := member
      have hgt : compare key k = .gt := Std.OrientedCmp.gt_of_lt (hfront (k, v) List.mem_cons_self)
      rw [Json.emplace, hgt]
      exact congrArg _ (ih fun member hmember => hfront member (List.mem_cons_of_mem _ hmember))
  have hfold : ∀ front : List (Bytes × Json δ),
      ((front ++ members).map Prod.fst).Pairwise (fun k l => compare k l = .lt) →
      members.foldl (fun object m => Json.emplace m.1 m.2 object) front = front ++ members := by
    clear h
    induction members with
    | nil => exact fun front _ => (List.append_nil front).symm
    | cons member members ih =>
      intro front hpairs
      have hbefore : ∀ m ∈ front, compare m.1 member.1 = .lt := by
        intro m hm
        rw [List.map_append, List.pairwise_append] at hpairs
        exact hpairs.2.2 m.1 (List.mem_map_of_mem hm) member.1 List.mem_cons_self
      rw [List.foldl_cons, hlast front member.1 member.2 hbefore, ih, List.append_assoc]
      · rfl
      · rwa [List.append_assoc]
  exact congrArg Json.object (hfold [] h)

/-- The names of an ordered object are distinct. -/
theorem nodup_of_ordered {names : List Bytes} (h : names.Pairwise fun k l => compare k l = .lt) : names.Nodup := by
  refine h.imp fun {k l} hlt => ?_
  rintro rfl
  rw [Std.compare_eq_iff_eq.mpr rfl] at hlt
  cases hlt

section Canonical

variable [Decimal δ]

theorem items_canonical {values : List (Json δ)} (hne : values ≠ []) (rest : Bytes)
    (h : ∀ value ∈ values, ∀ rest, Value (Json.canonicalString value ++ rest) value rest) :
    Items (Json.canonicalItems Json.escapedString values ++ 93 :: rest) values rest := by
  induction values with
  | nil => exact absurd rfl hne
  | cons value values ih =>
    have hfirst := h value List.mem_cons_self
    rw [Json.canonicalItems_cons, List.append_assoc]
    cases values with
    | nil => exact .last (.none _) (hfirst _) (.none _)
    | cons next values =>
      exact .next (.none _) (hfirst _) (.none _)
        (ih (List.cons_ne_nil _ _) fun value hvalue => h value (List.mem_cons_of_mem _ hvalue))

theorem members_canonical {members : List (Bytes × Json δ)} (hne : members ≠ []) (rest : Bytes)
    (h : ∀ member ∈ members, ∀ rest, Value (Json.canonicalString member.2 ++ rest) member.2 rest) :
    Members (Json.canonicalMembers Json.escapedString members ++ 125 :: rest) members rest := by
  induction members with
  | nil => exact absurd rfl hne
  | cons member members ih =>
    obtain ⟨key, value⟩ := member
    have hfirst := h (key, value) List.mem_cons_self
    rw [Json.canonicalMembers_cons, List.append_assoc, List.cons_append, List.append_assoc]
    obtain ⟨name, hname, hchars⟩ := exists_chars key
      (58 :: (Json.canonicalString value ++ (Json.restText (Json.canonicalMembers Json.escapedString) members ++
        125 :: rest)))
    rw [hname]
    cases members with
    | nil => exact .last (.none _) hchars (.none _) (.none _) (hfirst _) (.none _)
    | cons next members =>
      exact .next (.none _) hchars (.none _) (.none _) (hfirst _) (.none _)
        (ih (List.cons_ne_nil _ _) fun member hmember => h member (List.mem_cons_of_mem _ hmember))

/-- **A canonical text says its document.** -/
theorem value_canonicalString {json : Json δ} (h : Exact json) (rest : Bytes) :
    Value (Json.canonicalString json ++ rest) json rest := by
  induction h generalizing rest with
  | null => exact .null rest
  | bool value =>
    cases value with
    | true => exact .yes rest
    | false => exact .no rest
  | int64 hlow hhigh => exact value_decimalInt hlow hhigh rest
  | string value =>
    obtain ⟨name, hname, hchars⟩ := exists_chars value rest
    show Value (Json.escapedString value ++ rest) _ rest
    rw [hname]
    exact .string hchars
  | array _ ih =>
    rename_i values _
    rw [Json.canonicalString, Json.canonicalWith, List.append_assoc, List.append_assoc]
    rcases values with _ | ⟨value, values⟩
    · exact .noItems (.none _)
    · exact .items (items_canonical (List.cons_ne_nil _ _) rest fun value hvalue rest => ih value hvalue rest)
  | object hordered _ ih =>
    rename_i members _
    rw [Json.canonicalString, Json.canonicalWith, List.append_assoc, List.append_assoc]
    rcases members with _ | ⟨member, members⟩
    · exact .noMembers (.none _)
    · have hmembers := members_canonical (List.cons_ne_nil _ _) rest fun member hmember rest =>
        ih member hmember rest
      rw [← ofMembers_ordered hordered]
      exact .members hmembers (nodup_of_ordered hordered)

theorem says_canonicalString {json : Json δ} (h : Exact json) : Says (Json.canonicalString json) json := by
  have hvalue := value_canonicalString h []
  rw [List.append_nil] at hvalue
  exact ⟨_, [], .none _, hvalue, .none _⟩

end Canonical

/-! ## What is parsed is exact -/

theorem ordered_emplace (key : Bytes) (value : Json δ) {object : List (Bytes × Json δ)}
    (h : (object.map Prod.fst).Pairwise fun k l => compare k l = .lt) :
    ((Json.emplace key value object).map Prod.fst).Pairwise fun k l => compare k l = .lt := by
  induction object with
  | nil => exact List.pairwise_singleton _ _
  | cons member object ih =>
    obtain ⟨k, v⟩ := member
    obtain ⟨hfirst, hrest⟩ := List.pairwise_cons.mp h
    rw [Json.emplace]
    split
    · rename_i hlt
      refine List.pairwise_cons.mpr ⟨fun l hl => ?_, h⟩
      rcases List.mem_cons.mp hl with rfl | hl
      · exact hlt
      · exact Std.TransCmp.lt_trans hlt (hfirst l hl)
    · exact h
    · rename_i hgt
      refine List.pairwise_cons.mpr ⟨fun l hl => ?_, ih hrest⟩
      obtain ⟨member, hmember, rfl⟩ := List.mem_map.mp hl
      rcases Layout.mem_emplace hmember with rfl | hold
      · exact Std.OrientedCmp.lt_of_gt hgt
      · exact hfirst member.1 (List.mem_map_of_mem hold)

/-- An object that has been put together from exact members is exact. -/
theorem exact_ofMembers {members : List (Bytes × Json δ)} (h : ∀ member ∈ members, Exact member.2) :
    Exact (Json.ofMembers members) := by
  have hbuilt : ∀ object : List (Bytes × Json δ),
      (object.map Prod.fst).Pairwise (fun k l => compare k l = .lt) → (∀ member ∈ object, Exact member.2) →
      Exact (.object (members.foldl (fun object m => Json.emplace m.1 m.2 object) object)) := by
    induction members with
    | nil => exact fun object hordered hexact => .object hordered hexact
    | cons member members ih =>
      intro object hordered hexact
      refine ih (fun member hmember => h member (List.mem_cons_of_mem _ hmember)) _
        (ordered_emplace member.1 member.2 hordered) fun other hother => ?_
      rcases Layout.mem_emplace hother with rfl | hold
      · exact h member List.mem_cons_self
      · exact hexact other hold
  exact hbuilt [] List.Pairwise.nil (List.forall_mem_nil _)

theorem fromChars_range {sign digits : Bytes} {value : Int} (h : fromChars sign digits = .ok value) :
    -2 ^ 63 ≤ value ∧ value < 2 ^ 63 := by
  have hchecked : ∀ read : Int,
      (if -2 ^ 63 ≤ read ∧ read < 2 ^ 63 then Except.ok read else .error "invalid JSON integer") = .ok value →
      -2 ^ 63 ≤ value ∧ value < 2 ^ 63 := by
    intro read hread
    split at hread
    · rename_i hrange
      obtain rfl := Except.ok.inj hread
      exact hrange
    · cases hread
  exact hchecked _ h

mutual

/-- **What a text says is exact.** -/
theorem exact_of_value : ∀ {input : Bytes} {json : Json δ} {rest : Bytes}, Value input json rest → Exact json
  | _, _, _, .null _ => .null
  | _, _, _, .yes _ => .bool true
  | _, _, _, .no _ => .bool false
  | _, _, _, .whole _ _ hvalue => .int64 (fromChars_range hvalue).1 (fromChars_range hvalue).2
  | _, _, _, .string _ => .string _
  | _, _, _, .noItems _ => .array nofun
  | _, _, _, .items hitems => .array (exact_of_items hitems)
  | _, _, _, .noMembers _ => .object List.Pairwise.nil nofun
  | _, _, _, .members hmembers _ => exact_ofMembers (exact_of_members hmembers)

theorem exact_of_items : ∀ {input : Bytes} {values : List (Json δ)} {rest : Bytes}, Items input values rest →
    ∀ value ∈ values, Exact value
  | _, _, _, .last _ hvalue _ => List.forall_mem_singleton.mpr (exact_of_value hvalue)
  | _, _, _, .next _ hvalue _ hmore => List.forall_mem_cons.mpr ⟨exact_of_value hvalue, exact_of_items hmore⟩

theorem exact_of_members : ∀ {input : Bytes} {members : List (Bytes × Json δ)} {rest : Bytes},
    Members input members rest → ∀ member ∈ members, Exact member.2
  | _, _, _, .last _ _ _ _ hvalue _ => List.forall_mem_singleton.mpr (exact_of_value hvalue)
  | _, _, _, .next _ _ _ _ hvalue _ hmore =>
    List.forall_mem_cons.mpr ⟨exact_of_value hvalue, exact_of_members hmore⟩

end

/-! ## The round trip -/

variable [Decimal δ] [Strtod δ]

/-- **Canonical texts are read back.** -/
theorem json_roundTrip :
    (∀ json : Json δ, Exact json → parse (Json.canonicalString json) = .ok json) ∧
    (∀ a b : Json δ, Exact a → Exact b → Json.canonicalString a = Json.canonicalString b → a = b) ∧
    ∀ (text : Bytes) (json : Json δ), hasDecimal text = false → parse text = .ok json →
      Exact json ∧ ∃ again : Json δ, parse (Json.canonicalString json) = .ok again ∧
        Json.canonicalString again = Json.canonicalString json := by
  have hread : ∀ json : Json δ, Exact json → parse (Json.canonicalString json) = .ok json :=
    fun json h => parse_of_saying (says_canonicalString h)
  refine ⟨hread, fun a b ha hb hsame => ?_, fun text json hplain hparse => ?_⟩
  · have hboth := (hread a ha).symm.trans ((congrArg parse hsame).trans (hread b hb))
    exact Except.ok.inj hboth
  · obtain ⟨start, rest, -, hvalue, -⟩ := (parse_iff hplain).mp hparse
    have hexact := exact_of_value hvalue
    exact ⟨hexact, json, hread json hexact, rfl⟩

/-- A text with blanks, escapes and its members out of order. -/
def unsorted : Bytes := ascii " \x7b \"b\\n\" : [ -7 , \"\\ud83d\\ude00\\/\" ], \"a\": true \x7d "

theorem json_roundTrip_unsorted : ∃ json : Json Empty, parse unsorted = .ok json ∧
    parse (Json.canonicalString json) = .ok json ∧
    Json.canonicalString json = ascii "\x7b\"a\":true,\"b\\n\":[-7,\"" ++ [240, 159, 152, 128] ++ ascii "/\"]\x7d" := by
  have hok : (parse (δ := Empty) unsorted).toOption.map Json.canonicalString =
      some (ascii "\x7b\"a\":true,\"b\\n\":[-7,\"" ++ [240, 159, 152, 128] ++ ascii "/\"]\x7d") := by
    decide +kernel
  rcases hparse : parse (δ := Empty) unsorted with message | json
  · rw [hparse] at hok
    cases hok
  · rw [hparse] at hok
    have hexact := (json_roundTrip (δ := Empty)).2.2 unsorted json (by decide +kernel) hparse
    exact ⟨json, rfl, (json_roundTrip (δ := Empty)).1 json hexact.1, Option.some_inj.mp hok⟩

end JsonGrammar

end StateSpec
