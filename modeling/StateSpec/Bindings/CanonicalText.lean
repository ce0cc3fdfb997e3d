/-
  CANONICAL TEXTS IN TWO LANGUAGES — `canonical_string` of `bindings/cpp/json.hpp` and `canonicalString` of
  `bindings/java/com/statespec/backend/Json.java`.

  A `std::map` orders member names by their bytes, a `TreeMap` by their UTF-16 code units; entity keys are made of
  these texts, and one language is to find what another one has stored.
  1. `Document` — a JSON value without decimals, its members in any order; `cpp` and `java` are the values that the
     bindings make of it.
  2. The Java text is the C++ text of the members as Java orders them (`utf8_canonicalString`).
  3. The orders agree where no two names of one object are crossed (`cpp_eq_arranged_iff`), so that is when the
     texts are the same (`canonical_texts_agree_iff`).
-/
import StateSpec.JsonRoundTrip
import StateSpec.Lib.Unicode
import Mathlib.Data.List.Nodup
import Mathlib.Data.List.Pairwise

namespace StateSpec

open Unicode

/-! ## The Java binding -/

namespace Java

/-- `interface Json`, of strings without lone surrogates. -/
inductive Json where
  | nullValue
  | booleanValue (value : Bool)
  | integerValue (value : Int)
  | stringValue (value : List Char)
  | arrayValue (values : List Json)
  | objectValue (values : List (List Char × Json))

/-- `TreeMap::put`: names are in the order of `String::compareTo`, which is that of their code units. -/
def putOrdered {α : Type} (key : List Char) (value : α) : List (List Char × α) → List (List Char × α)
  | [] => [(key, value)]
  | (k, v) :: rest =>
    match compare (utf16 key) (utf16 k) with
    | .lt => (key, value) :: (k, v) :: rest
    | .eq => (key, value) :: rest
    | .gt => (k, v) :: putOrdered key value rest

/-- `new TreeMap<>(values)`. -/
def treeMap {α : Type} (values : List (List Char × α)) : List (List Char × α) :=
  values.foldl (fun map m => putOrdered m.1 m.2 map) []

/-- `Json.object`. -/
def Json.object (values : List (List Char × Json)) : Json := .objectValue (treeMap values)

/-- `StringBuilder::append(long)`. -/
def appendLong (value : Int) : List Char :=
  if value < 0 then '-' :: Nat.toDigits 10 value.natAbs else Nat.toDigits 10 value.natAbs

/-- `String.format("%04x", codePoint)`, of a number of at most four digits. -/
def format04x (codePoint : Nat) : List Char :=
  [codePoint / 4096 % 16, codePoint / 256 % 16, codePoint / 16 % 16, codePoint % 16].map Nat.digitChar

/-- `appendEscapedString`, one code point at a time. -/
def escapeCodePoint (codePoint : Char) : List Char :=
  if codePoint = '"' then "\\\"".toList
  else if codePoint = '\\' then "\\\\".toList
  else if codePoint = '\x08' then "\\b".toList
  else if codePoint = '\x0C' then "\\f".toList
  else if codePoint = '\n' then "\\n".toList
  else if codePoint = '\r' then "\\r".toList
  else if codePoint = '\t' then "\\t".toList
  else if codePoint.toNat < 0x20 then "\\u".toList ++ format04x codePoint.toNat
  else [codePoint]

/-- `appendEscapedString`. -/
def escapedString (value : List Char) : List Char := '"' :: value.flatMap escapeCodePoint ++ ['"']

mutual

/-- `canonicalString`. -/
def Json.canonicalString : Json → List Char
  | .nullValue => "null".toList
  | .booleanValue value => if value then "true".toList else "false".toList
  | .integerValue value => appendLong value
  | .stringValue value => escapedString value
  | .arrayValue values => '[' :: (Json.itemsText true values ++ [']'])
  | .objectValue values => '\x7b' :: (Json.membersText true values ++ ['\x7d'])

/-- The items, with a comma in front of each but the first. -/
def Json.itemsText : Bool → List Json → List Char
  | _, [] => []
  | first, item :: rest => (if first then [] else [',']) ++ (item.canonicalString ++ Json.itemsText false rest)

def Json.membersText : Bool → List (List Char × Json) → List Char
  | _, [] => []
  | first, (name, value) :: rest =>
    (if first then [] else [',']) ++ (escapedString name ++ ':' :: (value.canonicalString ++
      Json.membersText false rest))

end

end Java

/-! ## Documents -/

/-- A JSON value without decimals; the members of an object come in any order. -/
inductive Document where
  | null
  | bool (value : Bool)
  | integer (value : Int)
  | string (value : List Char)
  | array (values : List Document)
  | object (members : List (List Char × Document))

namespace Document

mutual

/-- The value of the C++ binding. -/
def cpp : Document → Json Empty
  | .null => .null
  | .bool value => .bool value
  | .integer value => .int64 value
  | .string value => .string (utf8 value)
  | .array values => .array (cppItems values)
  | .object members => Json.ofMembers (cppMembers members)

def cppItems : List Document → List (Json Empty)
  | [] => []
  | item :: rest => cpp item :: cppItems rest

def cppMembers : List (List Char × Document) → List (Bytes × Json Empty)
  | [] => []
  | (name, value) :: rest => (utf8 name, cpp value) :: cppMembers rest

end

mutual

/-- The value of the Java binding. -/
def java : Document → Java.Json
  | .null => .nullValue
  | .bool value => .booleanValue value
  | .integer value => .integerValue value
  | .string value => .stringValue value
  | .array values => .arrayValue (javaItems values)
  | .object members => Java.Json.object (javaMembers members)

def javaItems : List Document → List Java.Json
  | [] => []
  | item :: rest => java item :: javaItems rest

def javaMembers : List (List Char × Document) → List (List Char × Java.Json)
  | [] => []
  | (name, value) :: rest => (name, java value) :: javaMembers rest

end

mutual

/-- No object has two members of one name. -/
def Distinct : Document → Prop
  | .array values => DistinctItems values
  | .object members => (members.map Prod.fst).Nodup ∧ DistinctMembers members
  | _ => True

def DistinctItems : List Document → Prop
  | [] => True
  | item :: rest => Distinct item ∧ DistinctItems rest

def DistinctMembers : List (List Char × Document) → Prop
  | [] => True
  | (_, value) :: rest => Distinct value ∧ DistinctMembers rest

end

mutual

/-- No two names of one object are crossed. -/
def Uncrossed : Document → Prop
  | .array values => UncrossedItems values
  | .object members =>
    (∀ k ∈ members.map Prod.fst, ∀ l ∈ members.map Prod.fst, ¬ crossed k l) ∧ UncrossedMembers members
  | _ => True

def UncrossedItems : List Document → Prop
  | [] => True
  | item :: rest => Uncrossed item ∧ UncrossedItems rest

def UncrossedMembers : List (List Char × Document) → Prop
  | [] => True
  | (_, value) :: rest => Uncrossed value ∧ UncrossedMembers rest

end

mutual

/-- The C++ value with its members as Java orders them. -/
def arranged : Document → Json Empty
  | .null => .null
  | .bool value => .bool value
  | .integer value => .int64 value
  | .string value => .string (utf8 value)
  | .array values => .array (arrangedItems values)
  | .object members => .object ((Java.treeMap (arrangedMembers members)).map fun m => (utf8 m.1, m.2))

def arrangedItems : List Document → List (Json Empty)
  | [] => []
  | item :: rest => arranged item :: arrangedItems rest

def arrangedMembers : List (List Char × Document) → List (List Char × Json Empty)
  | [] => []
  | (name, value) :: rest => (name, arranged value) :: arrangedMembers rest

end

end Document

/-! ## Texts -/

namespace Java

/-- An escaped character, as bytes. -/
theorem utf8_escapeCodePoint (c : Char) : utf8 (escapeCodePoint c) = (utf8Char c).flatMap StateSpec.Json.escapeByte := by
  by_cases hc : c.toNat ≤ 0x7F
  · have hascii : ∀ n : Fin 128, utf8 (escapeCodePoint (Char.ofNat n)) =
        (utf8Char (Char.ofNat n)).flatMap StateSpec.Json.escapeByte := by
      decide +kernel
    have hrebuilt := hascii ⟨c.toNat, by omega⟩
    rwa [Char.ofNat_toNat] at hrebuilt
  · have hne : ∀ d : Char, d.toNat ≤ 0x7F → c ≠ d := by
      rintro d hd rfl
      exact hc hd
    have hplain : escapeCodePoint c = [c] := by
      rw [escapeCodePoint, if_neg (hne _ (by decide)), if_neg (hne _ (by decide)), if_neg (hne _ (by decide)),
        if_neg (hne _ (by decide)), if_neg (hne _ (by decide)), if_neg (hne _ (by decide)),
        if_neg (hne _ (by decide)), if_neg (by omega)]
    have hbytes : ∀ b ∈ utf8Char c, StateSpec.Json.escapeByte b = [b] := by
      intro b hb
      have hhigh := high_of_mem (c := c) (by omega) hb
      have hother : ∀ d : UInt8, d.toNat < 0x80 → b ≠ d := by
        rintro d hd rfl
        omega
      have hcontrol : ¬ b < 32 := by
        rw [UInt8.lt_iff_toNat_lt]
        have hspace : (32 : UInt8).toNat = 32 := rfl
        omega
      rw [StateSpec.Json.escapeByte, if_neg (hother _ (by decide)), if_neg (hother _ (by decide)),
        if_neg (hother _ (by decide)), if_neg (hother _ (by decide)), if_neg (hother _ (by decide)),
        if_neg (hother _ (by decide)), if_neg (hother _ (by decide)), if_neg hcontrol]
    rw [hplain, List.flatMap_congr hbytes, utf8_cons, utf8_nil, List.append_nil]
    exact (List.flatMap_singleton' _).symm

theorem utf8_escapedString (value : List Char) :
    utf8 (escapedString value) = StateSpec.Json.escapedString (utf8 value) := by
  have hchars : utf8 (value.flatMap escapeCodePoint) = (utf8 value).flatMap StateSpec.Json.escapeByte := by
    induction value with
    | nil => rfl
    | cons c value ih =>
      rw [List.flatMap_cons, utf8_append, utf8_escapeCodePoint, ih, utf8_cons, List.flatMap_append]
  rw [escapedString, utf8_append, utf8_cons, hchars]
  rfl

theorem utf8_appendLong (value : Int) : utf8 (appendLong value) = Bytes.decimalInt value := by
  have hdigits : ∀ n : Nat, utf8 (Nat.toDigits 10 n) = Bytes.decimal n := by
    intro n
    rw [utf8, Bytes.decimal, List.map_eq_flatMap]
    refine List.flatMap_congr fun c hc => ?_
    have hrange := Bytes.digit_toNat (Bytes.isDigit_of_mem_toDigits hc)
    exact utf8Char_one (by omega)
  rw [appendLong, Bytes.decimalInt]
  split
  · rw [utf8_cons, hdigits]
    rfl
  · exact hdigits _

/-! ### Trees -/

section Trees

variable {α β : Type}

theorem putOrdered_map (f : α → β) (key : List Char) (value : α) (map : List (List Char × α)) :
    putOrdered key (f value) (map.map fun m => (m.1, f m.2)) =
      (putOrdered key value map).map fun m => (m.1, f m.2) := by
  induction map with
  | nil => rfl
  | cons m map ih =>
    obtain ⟨k, v⟩ := m
    rw [List.map_cons, putOrdered, putOrdered, ih]
    cases compare (utf16 key) (utf16 k) with
    | lt => rfl
    | eq => rfl
    | gt => rfl

/-- The order of a tree is that of the names. -/
theorem treeMap_map (f : α → β) (values : List (List Char × α)) :
    treeMap (values.map fun m => (m.1, f m.2)) = (treeMap values).map fun m => (m.1, f m.2) := by
  have hfold : ∀ map : List (List Char × α),
      (values.map fun m => (m.1, f m.2)).foldl (fun map m => putOrdered m.1 m.2 map)
        (map.map fun m => (m.1, f m.2)) =
      (values.foldl (fun map m => putOrdered m.1 m.2 map) map).map fun m => (m.1, f m.2) := by
    induction values with
    | nil => exact fun _ => rfl
    | cons m values ih =>
      intro map
      rw [List.map_cons, List.foldl_cons, List.foldl_cons]
      show List.foldl _ (putOrdered m.1 (f m.2) _) _ = _
      rw [putOrdered_map]
      exact ih _
  exact hfold []

theorem mem_putOrdered {key : List Char} {value : α} {map : List (List Char × α)} {member : List Char × α}
    (h : member ∈ putOrdered key value map) : member = (key, value) ∨ member ∈ map := by
  induction map with
  | nil => exact .inl (List.mem_singleton.mp h)
  | cons first map ih =>
    obtain ⟨k, v⟩ := first
    rw [putOrdered] at h
    split at h
    · exact List.mem_cons.mp h
    · exact (List.mem_cons.mp h).imp_right (List.mem_cons_of_mem _)
    · rcases List.mem_cons.mp h with rfl | h
      · exact .inr List.mem_cons_self
      · exact (ih h).imp_right (List.mem_cons_of_mem _)

theorem mem_treeMap {values : List (List Char × α)} {member : List Char × α} (h : member ∈ treeMap values) :
    member ∈ values := by
  have hfold : ∀ map : List (List Char × α),
      member ∈ values.foldl (fun map m => putOrdered m.1 m.2 map) map → member ∈ values ∨ member ∈ map := by
    clear h
    induction values with
    | nil => exact fun _ hmem => .inr hmem
    | cons m values ih =>
      intro map hmem
      rcases ih _ hmem with hmem | hmem
      · exact .inl (List.mem_cons_of_mem _ hmem)
      · rcases mem_putOrdered hmem with rfl | hmem
        · exact .inl List.mem_cons_self
        · exact .inr hmem
  exact (hfold [] h).resolve_right List.not_mem_nil

end Trees

end Java

namespace Document

theorem javaMembers_eq (members : List (List Char × Document)) :
    javaMembers members = members.map fun m => (m.1, m.2.java) := by
  induction members with
  | nil => rfl
  | cons m members ih => rw [javaMembers, ih, List.map_cons]

theorem arrangedMembers_eq (members : List (List Char × Document)) :
    arrangedMembers members = members.map fun m => (m.1, m.2.arranged) := by
  induction members with
  | nil => rfl
  | cons m members ih => rw [arrangedMembers, ih, List.map_cons]

theorem cppMembers_eq (members : List (List Char × Document)) :
    cppMembers members = members.map fun m => (utf8 m.1, m.2.cpp) := by
  induction members with
  | nil => rfl
  | cons m members ih => rw [cppMembers, ih, List.map_cons]

/-- The text of the items, and with a comma in front. -/
theorem utf8_itemsText {items : List Document}
    (h : ∀ item ∈ items, utf8 item.java.canonicalString = Json.canonicalString item.arranged) :
    utf8 (Java.Json.itemsText true (javaItems items)) = Json.canonicalItems Json.escapedString (arrangedItems items) ∧
    utf8 (Java.Json.itemsText false (javaItems items)) =
      Json.restText (Json.canonicalItems Json.escapedString) (arrangedItems items) := by
  induction items with
  | nil => exact ⟨rfl, rfl⟩
  | cons item items ih =>
    obtain ⟨-, hrest⟩ := ih fun item hitem => h item (List.mem_cons_of_mem _ hitem)
    have hfirst : utf8 (Java.Json.itemsText true (javaItems (item :: items))) =
        Json.canonicalItems Json.escapedString (arrangedItems (item :: items)) := by
      rw [javaItems, Java.Json.itemsText, arrangedItems, Json.canonicalItems_cons, if_pos rfl, List.nil_append,
        utf8_append, h item List.mem_cons_self, hrest]
    refine ⟨hfirst, ?_⟩
    rw [arrangedItems, Json.restText, ← arrangedItems, ← hfirst]
    rfl

theorem utf8_membersText {members : List (List Char × Document)}
    (h : ∀ m ∈ members, utf8 m.2.java.canonicalString = Json.canonicalString m.2.arranged) :
    utf8 (Java.Json.membersText true (members.map fun m => (m.1, m.2.java))) =
      Json.canonicalMembers Json.escapedString (members.map fun m => (utf8 m.1, m.2.arranged)) ∧
    utf8 (Java.Json.membersText false (members.map fun m => (m.1, m.2.java))) =
      Json.restText (Json.canonicalMembers Json.escapedString) (members.map fun m => (utf8 m.1, m.2.arranged)) := by
  induction members with
  | nil => exact ⟨rfl, rfl⟩
  | cons m members ih =>
    obtain ⟨-, hrest⟩ := ih fun m hm => h m (List.mem_cons_of_mem _ hm)
    have hfirst : utf8 (Java.Json.membersText true ((m :: members).map fun m => (m.1, m.2.java))) =
        Json.canonicalMembers Json.escapedString ((m :: members).map fun m => (utf8 m.1, m.2.arranged)) := by
      rw [List.map_cons, List.map_cons, Java.Json.membersText, Json.canonicalMembers_cons, if_pos rfl,
        List.nil_append, utf8_append, Java.utf8_escapedString, utf8_cons, utf8_append, h m List.mem_cons_self, hrest]
      rfl
    refine ⟨hfirst, ?_⟩
    show _ = 44 :: Json.canonicalMembers Json.escapedString ((m :: members).map fun m => (utf8 m.1, m.2.arranged))
    rw [← hfirst]
    rfl

mutual

/-- **The Java text is the C++ text of the members as Java orders them.** -/
theorem utf8_canonicalString : ∀ document : Document,
    utf8 document.java.canonicalString = Json.canonicalString document.arranged
  | .null => rfl
  | .bool true => rfl
  | .bool false => rfl
  | .integer value => Java.utf8_appendLong value
  | .string value => Java.utf8_escapedString value
  | .array values => by
    have hitems := (utf8_itemsText (utf8_items values)).1
    rw [java, arranged, Java.Json.canonicalString, utf8_cons, utf8_append, hitems]
    rfl
  | .object members => by
    have hmembers := (@utf8_membersText (Java.treeMap members) fun m hm =>
      utf8_members members m (Java.mem_treeMap hm)).1
    rw [java, arranged, Java.Json.object, javaMembers_eq, arrangedMembers_eq, Java.treeMap_map, Java.treeMap_map,
      List.map_map, Java.Json.canonicalString, utf8_cons, utf8_append, hmembers]
    rfl

theorem utf8_items : ∀ (items : List Document), ∀ item ∈ items,
    utf8 item.java.canonicalString = Json.canonicalString item.arranged
  | [] => nofun
  | item :: items => List.forall_mem_cons.mpr ⟨utf8_canonicalString item, utf8_items items⟩

theorem utf8_members : ∀ (members : List (List Char × Document)), ∀ m ∈ members,
    utf8 m.2.java.canonicalString = Json.canonicalString m.2.arranged
  | [] => nofun
  | (_, value) :: members => List.forall_mem_cons.mpr ⟨utf8_canonicalString value, utf8_members members⟩

end

/-! ## Orders -/

section Orders

variable {β : Type}

/-- A name that is crossed with none goes to the same place in both orders. -/
theorem emplace_uncrossed {key : List Char} (value : Json β) {map : List (List Char × Json β)}
    (hfresh : key ∉ map.map Prod.fst) (huncrossed : ∀ k ∈ map.map Prod.fst, ¬ crossed key k) :
    Json.emplace (utf8 key) value (map.map fun m => (utf8 m.1, m.2)) =
      (Java.putOrdered key value map).map fun m => (utf8 m.1, m.2) := by
  induction map with
  | nil => rfl
  | cons m map ih =>
    obtain ⟨k, v⟩ := m
    rw [List.map_cons, List.mem_cons, not_or] at hfresh
    rw [List.map_cons, List.forall_mem_cons] at huncrossed
    have hsame := (compare_utf16_iff key k).mpr huncrossed.1
    rw [List.map_cons, Json.emplace, Java.putOrdered, hsame, ih hfresh.2 huncrossed.2]
    cases hcompare : compare (utf8 key) (utf8 k) with
    | lt => rfl
    | eq => exact absurd (utf8_injective (Std.compare_eq_iff_eq.mp hcompare)) hfresh.1
    | gt => rfl

theorem mem_names_putOrdered (key : List Char) (value : β) (map : List (List Char × β)) (k : List Char) :
    k ∈ (Java.putOrdered key value map).map Prod.fst ↔ k = key ∨ k ∈ map.map Prod.fst := by
  induction map with
  | nil => simp [Java.putOrdered]
  | cons m map ih =>
    obtain ⟨l, v⟩ := m
    rw [Java.putOrdered]
    cases hcompare : compare (utf16 key) (utf16 l) with
    | lt => simp
    | eq =>
      obtain rfl := utf16_injective (Std.compare_eq_iff_eq.mp hcompare)
      simp
    | gt =>
      simp only [List.map_cons, List.mem_cons]
      rw [ih]
      exact or_left_comm

theorem mem_names_treeMap (values : List (List Char × β)) (k : List Char) :
    k ∈ (Java.treeMap values).map Prod.fst ↔ k ∈ values.map Prod.fst := by
  have hfold : ∀ map : List (List Char × β),
      k ∈ (values.foldl (fun map m => Java.putOrdered m.1 m.2 map) map).map Prod.fst ↔
        k ∈ values.map Prod.fst ∨ k ∈ map.map Prod.fst := by
    induction values with
    | nil => exact fun map => (or_iff_right List.not_mem_nil).symm
    | cons m values ih =>
      intro map
      rw [List.foldl_cons, ih, mem_names_putOrdered, List.map_cons, List.mem_cons, or_left_comm, or_assoc]
  exact (hfold []).trans (or_iff_left List.not_mem_nil)

/-- The names of a tree are in the order of their code units. -/
theorem ordered_putOrdered (key : List Char) (value : β) {map : List (List Char × β)}
    (h : map.Pairwise fun m n => compare (utf16 m.1) (utf16 n.1) = .lt) :
    (Java.putOrdered key value map).Pairwise fun m n => compare (utf16 m.1) (utf16 n.1) = .lt := by
  induction map with
  | nil => exact List.pairwise_singleton _ _
  | cons m map ih =>
    obtain ⟨k, v⟩ := m
    obtain ⟨hfirst, hrest⟩ := List.pairwise_cons.mp h
    rw [Java.putOrdered]
    split
    · rename_i hlt
      refine List.pairwise_cons.mpr ⟨fun n hn => ?_, h⟩
      rcases List.mem_cons.mp hn with rfl | hn
      · exact hlt
      · exact Std.TransCmp.lt_trans hlt (hfirst n hn)
    · rename_i heq
      obtain rfl := utf16_injective (Std.compare_eq_iff_eq.mp heq)
      exact List.pairwise_cons.mpr ⟨hfirst, hrest⟩
    · rename_i hgt
      refine List.pairwise_cons.mpr ⟨fun n hn => ?_, ih hrest⟩
      rcases Java.mem_putOrdered hn with rfl | hold
      · exact Std.OrientedCmp.lt_of_gt hgt
      · exact hfirst n hold

theorem ordered_treeMap (values : List (List Char × β)) :
    (Java.treeMap values).Pairwise fun m n => compare (utf16 m.1) (utf16 n.1) = .lt := by
  have hfold : ∀ map : List (List Char × β),
      (map.Pairwise fun m n => compare (utf16 m.1) (utf16 n.1) = .lt) →
      (values.foldl (fun map m => Java.putOrdered m.1 m.2 map) map).Pairwise fun m n =>
        compare (utf16 m.1) (utf16 n.1) = .lt := by
    induction values with
    | nil => exact fun _ h => h
    | cons m values ih => exact fun map h => ih _ (ordered_putOrdered m.1 m.2 h)
  exact hfold [] List.Pairwise.nil

/-- A member under a new name is in the object, and stays there. -/
theorem mem_foldl_emplace {members : List (Bytes × Json β)} (hnodup : (members.map Prod.fst).Nodup)
    {member : Bytes × Json β} (h : member ∈ members) :
    member ∈ members.foldl (fun object m => Json.emplace m.1 m.2 object) [] := by
  have hstays : ∀ (key : Bytes) (value : Json β) (object : List (Bytes × Json β)), member ∈ object →
      member ∈ Json.emplace key value object := by
    intro key value object hmem
    induction object with
    | nil => cases hmem
    | cons first object ih =>
      rw [Json.emplace]
      split
      · exact List.mem_cons_of_mem _ hmem
      · exact hmem
      · rcases List.mem_cons.mp hmem with rfl | hmem
        · exact List.mem_cons_self
        · exact List.mem_cons_of_mem _ (ih hmem)
  have hself : ∀ (key : Bytes) (value : Json β) (object : List (Bytes × Json β)), key ∉ object.map Prod.fst →
      (key, value) ∈ Json.emplace key value object := by
    intro key value object hfresh
    induction object with
    | nil => exact List.mem_cons_self
    | cons first object ih =>
      rw [List.map_cons, List.mem_cons, not_or] at hfresh
      rw [Json.emplace]
      split
      · exact List.mem_cons_self
      · rename_i heq
        exact absurd (Std.compare_eq_iff_eq.mp heq) hfresh.1
      · exact List.mem_cons_of_mem _ (ih hfresh.2)
  have hfold : ∀ object : List (Bytes × Json β), (∀ m ∈ members, m.1 ∉ object.map Prod.fst) →
      member ∈ members ∨ member ∈ object →
      member ∈ members.foldl (fun object m => Json.emplace m.1 m.2 object) object := by
    clear h
    induction members with
    | nil => exact fun _ _ hmem => hmem.resolve_left List.not_mem_nil
    | cons m members ih =>
      intro object hfresh hmem
      rw [List.map_cons, List.nodup_cons] at hnodup
      refine ih hnodup.2 _ (fun n hn hmemName => ?_) ?_
      · obtain ⟨other, hother, hname⟩ := List.mem_map.mp hmemName
        rcases Layout.mem_emplace hother with rfl | hold
        · exact hnodup.1 (List.mem_map.mpr ⟨n, hn, hname.symm⟩)
        · exact hfresh n (List.mem_cons_of_mem _ hn) (List.mem_map.mpr ⟨other, hold, hname⟩)
      · rcases hmem with hmem | hmem
        · rcases List.mem_cons.mp hmem with rfl | hmem
          · exact .inr (hself _ _ _ (hfresh _ List.mem_cons_self))
          · exact .inl hmem
        · exact .inr (hstays _ _ _ hmem)
  exact hfold [] (fun _ _ => List.not_mem_nil) (.inl h)

theorem ordered_foldl_emplace (members : List (Bytes × Json β)) :
    ((members.foldl (fun object m => Json.emplace m.1 m.2 object) []).map Prod.fst).Pairwise
      fun k l => compare k l = .lt := by
  have hfold : ∀ object : List (Bytes × Json β), (object.map Prod.fst).Pairwise (fun k l => compare k l = .lt) →
      ((members.foldl (fun object m => Json.emplace m.1 m.2 object) object).map Prod.fst).Pairwise
        fun k l => compare k l = .lt := by
    induction members with
    | nil => exact fun _ h => h
    | cons m members ih => exact fun object h => ih _ (JsonGrammar.ordered_emplace m.1 m.2 h)
  exact hfold [] List.Pairwise.nil

/-- What is added to both maps under names that are not crossed stands in the same places. -/
theorem foldl_uncrossed {members : List (List Char × Json β)} (hnodup : (members.map Prod.fst).Nodup)
    (huncrossed : ∀ k ∈ members.map Prod.fst, ∀ l ∈ members.map Prod.fst, ¬ crossed k l) :
    (members.map fun m => (utf8 m.1, m.2)).foldl (fun object m => Json.emplace m.1 m.2 object) [] =
      (Java.treeMap members).map fun m => (utf8 m.1, m.2) := by
  have hfold : ∀ (rest : List (List Char × Json β)) (map : List (List Char × Json β)),
      (rest.map Prod.fst).Nodup → (∀ m ∈ rest, m ∈ members) →
      (∀ k ∈ map.map Prod.fst, k ∈ members.map Prod.fst ∧ k ∉ rest.map Prod.fst) →
      (rest.map fun m => (utf8 m.1, m.2)).foldl (fun object m => Json.emplace m.1 m.2 object)
        (map.map fun m => (utf8 m.1, m.2)) =
      (rest.foldl (fun map m => Java.putOrdered m.1 m.2 map) map).map fun m => (utf8 m.1, m.2) := by
    intro rest
    induction rest with
    | nil => exact fun _ _ _ _ => rfl
    | cons m rest ih =>
      intro map hnodup hmembers hnames
      rw [List.map_cons, List.nodup_cons] at hnodup
      have hname : m.1 ∈ members.map Prod.fst := List.mem_map_of_mem (hmembers m List.mem_cons_self)
      have hput : Json.emplace (utf8 m.1) m.2 (map.map fun m => (utf8 m.1, m.2)) =
          (Java.putOrdered m.1 m.2 map).map fun m => (utf8 m.1, m.2) := emplace_uncrossed m.2
        (fun hmem => (hnames m.1 hmem).2 List.mem_cons_self)
        fun k hk => huncrossed m.1 hname k (hnames k hk).1
      rw [List.map_cons, List.foldl_cons, List.foldl_cons, hput]
      refine ih _ hnodup.2 (fun n hn => hmembers n (List.mem_cons_of_mem _ hn)) fun k hk => ?_
      rcases (mem_names_putOrdered m.1 m.2 map k).mp hk with rfl | hold
      · exact ⟨hname, hnodup.1⟩
      · exact ⟨(hnames k hold).1, fun hmem => (hnames k hold).2 (List.mem_cons_of_mem _ hmem)⟩
  exact hfold members [] hnodup (fun _ hm => hm) nofun

/-- **Objects**: the two orders are the same exactly when no names are crossed. -/
theorem object_eq_iff {α : Type} {members : List (List Char × α)} (f g : α → Json β)
    (hnodup : (members.map Prod.fst).Nodup) :
    (members.map fun m => (utf8 m.1, f m.2)).foldl (fun object m => Json.emplace m.1 m.2 object) [] =
        (Java.treeMap (members.map fun m => (m.1, g m.2))).map (fun m => (utf8 m.1, m.2)) ↔
      (∀ k ∈ members.map Prod.fst, ∀ l ∈ members.map Prod.fst, ¬ crossed k l) ∧
        ∀ m ∈ members, f m.2 = g m.2 := by
  have hnames : ∀ h : α → Json β, (members.map fun m => (m.1, h m.2)).map Prod.fst = members.map Prod.fst := by
    intro h
    rw [List.map_map]
    rfl
  constructor
  · intro heq
    have hbytes := ordered_foldl_emplace (members.map fun m => (utf8 m.1, f m.2))
    have hunits := ordered_treeMap (members.map fun m => (m.1, g m.2))
    rw [heq, List.map_map, List.pairwise_map] at hbytes
    have hpairs : ∀ m ∈ Java.treeMap (members.map fun m => (m.1, g m.2)),
        ∀ n ∈ Java.treeMap (members.map fun m => (m.1, g m.2)), ¬ crossed m.1 n.1 := by
      have hsymm : Std.Symm fun m n : List Char × Json β => ¬ crossed m.1 n.1 :=
        ⟨fun m n h hcrossed => h (crossed_comm hcrossed)⟩
      refine List.Pairwise.forall_of_forall (fun m _ => not_crossed_self m.1)
        ((hbytes.and hunits).imp fun {m n} h => ?_)
      -- in both orders the one stands in front of the other
      exact (compare_utf16_iff m.1 n.1).mp (h.2.trans h.1.symm)
    constructor
    · intro k hk l hl
      rw [← hnames g, ← mem_names_treeMap] at hk hl
      obtain ⟨m, hm, rfl⟩ := List.mem_map.mp hk
      obtain ⟨n, hn, rfl⟩ := List.mem_map.mp hl
      exact hpairs m hm n hn
    · intro m hm
      have hencoded : ((members.map fun m => (utf8 m.1, f m.2)).map Prod.fst).Nodup := by
        have hmap : (members.map fun m => (utf8 m.1, f m.2)).map Prod.fst = (members.map Prod.fst).map utf8 := by
          rw [List.map_map, List.map_map]
          rfl
        rw [hmap]
        exact List.Nodup.map (fun _ _ => utf8_injective) hnodup
      have hmem := mem_foldl_emplace hencoded (List.mem_map_of_mem hm)
      rw [heq] at hmem
      obtain ⟨t, ht, hsame⟩ := List.mem_map.mp hmem
      obtain ⟨hname, hvalue⟩ := Prod.mk.inj hsame
      obtain ⟨n, hn, rfl⟩ := List.mem_map.mp (Java.mem_treeMap ht)
      have hmn : n = m := List.inj_on_of_nodup_map hnodup hn hm (utf8_injective hname)
      rw [← hvalue, hmn]
  · rintro ⟨huncrossed, hvalues⟩
    have hsame : (members.map fun m => (utf8 m.1, f m.2)) =
        (members.map fun m => (m.1, g m.2)).map fun m => (utf8 m.1, m.2) := by
      rw [List.map_map]
      refine List.map_congr_left fun m hm => ?_
      show (utf8 m.1, f m.2) = (utf8 m.1, g m.2)
      rw [hvalues m hm]
    rw [hsame]
    exact foldl_uncrossed (by rwa [hnames]) (by rwa [hnames])

end Orders

mutual

/-- **The bindings order the members of a document the same** exactly when none of its names are crossed. -/
theorem cpp_eq_arranged_iff : ∀ document : Document, document.Distinct →
    (document.cpp = document.arranged ↔ document.Uncrossed)
  | .null, _ => iff_of_true rfl trivial
  | .bool _, _ => iff_of_true rfl trivial
  | .integer _, _ => iff_of_true rfl trivial
  | .string _, _ => iff_of_true rfl trivial
  | .array values, hdistinct => by
    rw [cpp, arranged, Uncrossed, Json.array.injEq]
    exact cppItems_eq_iff values hdistinct
  | .object members, hdistinct => by
    rw [cpp, arranged, Uncrossed, Json.ofMembers, Json.object.injEq, cppMembers_eq, arrangedMembers_eq,
      object_eq_iff Document.cpp Document.arranged hdistinct.1]
    exact and_congr_right fun _ => cppMembers_eq_iff members hdistinct.2

theorem cppItems_eq_iff : ∀ items : List Document, DistinctItems items →
    (cppItems items = arrangedItems items ↔ UncrossedItems items)
  | [], _ => iff_of_true rfl trivial
  | item :: items, hdistinct => by
    rw [cppItems, arrangedItems, UncrossedItems, List.cons.injEq, cpp_eq_arranged_iff item hdistinct.1,
      cppItems_eq_iff items hdistinct.2]

theorem cppMembers_eq_iff : ∀ members : List (List Char × Document), DistinctMembers members →
    ((∀ m ∈ members, m.2.cpp = m.2.arranged) ↔ UncrossedMembers members)
  | [], _ => iff_of_true nofun trivial
  | (_, value) :: members, hdistinct => by
    rw [List.forall_mem_cons, UncrossedMembers, cpp_eq_arranged_iff value hdistinct.1,
      cppMembers_eq_iff members hdistinct.2]

end

/-- **The texts of the two languages are the same** exactly when no object of the document has crossed names. -/
theorem canonical_texts_agree_iff (document : Document) (hdistinct : document.Distinct) :
    Json.canonicalString document.cpp = utf8 document.java.canonicalString ↔ document.Uncrossed := by
  rw [utf8_canonicalString, ← cpp_eq_arranged_iff document hdistinct]
  exact ⟨Json.canonicalString_injective, congrArg _⟩

/-- A name in another script, an emoji as a value, and a nested object. -/
def mixed : Document :=
  .object [("é".toList, .string "😀".toList), ("b".toList, .object [("z".toList, .integer (-5)), ("a".toList, .null)])]

theorem canonical_texts_agree_mixed :
    Json.canonicalString mixed.cpp = utf8 mixed.java.canonicalString ∧ mixed.java.canonicalString =
      "\x7b\"b\":\x7b\"a\":null,\"z\":-5\x7d,\"é\":\"😀\"\x7d".toList := by
  have hnames : mixed.Distinct ∧ mixed.Uncrossed :=
    ⟨⟨by decide, trivial, ⟨by decide, trivial, trivial, trivial⟩, trivial⟩,
      ⟨by decide, trivial, ⟨by decide, trivial, trivial, trivial⟩, trivial⟩⟩
  exact ⟨(canonical_texts_agree_iff mixed hnames.1).mpr hnames.2, by decide +kernel⟩

/-- Two names, U+E000 and U+10000: in UTF-16 the second comes first. -/
def privateUse : Document := .object [(['\ue000'], .null), ([Char.ofNat 0x10000], .null)]

theorem canonical_texts_differ : ¬ ∀ document : Document, document.Distinct →
    Json.canonicalString document.cpp = utf8 document.java.canonicalString := by
  intro hall
  have hdistinct : privateUse.Distinct := ⟨by decide, trivial, trivial, trivial⟩
  exact absurd (hall privateUse hdistinct) (by decide +kernel)

end Document

end StateSpec
