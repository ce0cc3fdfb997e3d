/-
  GROUPS IN ORDER — a map from keys to lists, filled by pushing each item behind the items of its key.

  The keys stay in order (`ordered_pushBack`), so each is there once, and in the end the list of a key holds
  the items that have it, in their order (`mem_groups`).
-/
import Mathlib.Data.List.Nodup
import StateSpec.Lib.OrderedMap

namespace StateSpec

variable {α κ : Type} [Ord κ]

/-- `map[k].push_back(a)`. -/
def pushBack (k : κ) (a : α) : List (κ × List α) → List (κ × List α)
  | [] => [(k, [a])]
  | (other, items) :: rest =>
    match compare k other with
    | .lt => (k, [a]) :: (other, items) :: rest
    | .eq => (other, items ++ [a]) :: rest
    | .gt => (other, items) :: pushBack k a rest

def groups (key : α → κ) (items : List α) : List (κ × List α) :=
  items.foldl (fun map a => pushBack (key a) a map) []

def Ordered (map : List (κ × List α)) : Prop :=
  (map.map Prod.fst).Pairwise fun k other => compare k other = .lt

variable {k other : κ} {a : α} {map : List (κ × List α)}

theorem keys_pushBack (h : other ∈ (pushBack k a map).map Prod.fst) :
    other = k ∨ other ∈ map.map Prod.fst := by
  induction map with
  | nil => exact .inl (List.mem_singleton.mp h)
  | cons first rest ih =>
    rw [pushBack] at h
    split at h
    · exact List.mem_cons.mp h
    · exact .inr h
    · rcases List.mem_cons.mp h with rfl | h
      · exact .inr List.mem_cons_self
      · exact (ih h).imp_right (List.mem_cons_of_mem _)

variable [Std.TransOrd κ]

theorem ordered_pushBack (h : Ordered map) : Ordered (pushBack k a map) := by
  induction map with
  | nil => exact List.pairwise_singleton _ _
  | cons first rest ih =>
    obtain ⟨other, items⟩ := first
    obtain ⟨hfirst, hrest⟩ := List.pairwise_cons.mp h
    rw [pushBack]
    split
    · rename_i hlt
      refine List.pairwise_cons.mpr ⟨fun later hlater => ?_, h⟩
      rcases List.mem_cons.mp hlater with rfl | hlater
      · exact hlt
      · exact Std.TransCmp.lt_trans hlt (hfirst later hlater)
    · exact h
    · rename_i hgt
      refine List.pairwise_cons.mpr ⟨fun later hlater => ?_, ih hrest⟩
      rcases keys_pushBack hlater with rfl | hlater
      · exact Std.OrientedCmp.gt_iff_lt.mp hgt
      · exact hfirst later hlater

theorem ne_of_lt (h : compare k other = .lt) : k ≠ other := by
  rintro rfl
  have hself : compare k k = .eq := Std.ReflCmp.compare_self
  rw [hself] at h
  cases h

theorem Ordered.nodup (h : Ordered map) : (map.map Prod.fst).Nodup := h.imp ne_of_lt

omit [Std.TransOrd κ] in
/-- The key of the item is there, and those that were. -/
theorem mem_keys_pushBack (h : k = other ∨ other ∈ map.map Prod.fst) [Std.LawfulEqOrd κ] :
    other ∈ (pushBack k a map).map Prod.fst := by
  induction map with
  | nil =>
    obtain rfl := h.resolve_right List.not_mem_nil
    exact List.mem_singleton_self _
  | cons first rest ih =>
    rw [pushBack]
    split
    · exact List.mem_cons.mpr (h.imp_left Eq.symm)
    · rename_i heq
      obtain rfl := Std.LawfulEqCmp.eq_of_compare heq
      rcases h with rfl | h
      · exact List.mem_cons_self
      · exact h
    · rcases h with rfl | h
      · exact List.mem_cons_of_mem _ (ih (.inl rfl))
      · rcases List.mem_cons.mp h with rfl | h
        · exact List.mem_cons_self
        · exact List.mem_cons_of_mem _ (ih (.inr h))

variable [Std.LawfulEqOrd κ]

/-- What the list of a key is after an item has been pushed. -/
theorem mem_pushBack (hordered : Ordered map) {entry : κ × List α} (h : entry ∈ pushBack k a map) :
    (entry ∈ map ∧ entry.1 ≠ k) ∨
      entry.1 = k ∧ ((∃ items, (k, items) ∈ map ∧ entry.2 = items ++ [a]) ∨
        k ∉ map.map Prod.fst ∧ entry.2 = [a]) := by
  induction map with
  | nil =>
    obtain rfl := List.mem_singleton.mp h
    exact .inr ⟨rfl, .inr ⟨List.not_mem_nil, rfl⟩⟩
  | cons first rest ih =>
    obtain ⟨other, items⟩ := first
    obtain ⟨hfirst, hrest⟩ := List.pairwise_cons.mp hordered
    rw [pushBack] at h
    split at h
    · rename_i hlt
      have hless : ∀ later ∈ other :: rest.map Prod.fst, compare k later = .lt := by
        intro later hlater
        rcases List.mem_cons.mp hlater with rfl | hlater
        · exact hlt
        · exact Std.TransCmp.lt_trans hlt (hfirst later hlater)
      rcases List.mem_cons.mp h with rfl | h
      · exact .inr ⟨rfl, .inr ⟨fun hmem => ne_of_lt (hless k hmem) rfl, rfl⟩⟩
      · exact .inl ⟨h, (ne_of_lt (hless entry.1 (List.mem_map_of_mem h))).symm⟩
    · rename_i heq
      obtain rfl := Std.LawfulEqCmp.eq_of_compare heq
      rcases List.mem_cons.mp h with rfl | h
      · exact .inr ⟨rfl, .inl ⟨items, List.mem_cons_self, rfl⟩⟩
      · exact .inl ⟨List.mem_cons_of_mem _ h, (ne_of_lt (hfirst entry.1 (List.mem_map_of_mem h))).symm⟩
    · rename_i hgt
      have hless := Std.OrientedCmp.gt_iff_lt.mp hgt
      rcases List.mem_cons.mp h with rfl | h
      · exact .inl ⟨List.mem_cons_self, ne_of_lt hless⟩
      · rcases ih hrest h with ⟨hmem, hne⟩ | ⟨heq, ⟨listed, hmem, hpushed⟩ | ⟨hnew, hpushed⟩⟩
        · exact .inl ⟨List.mem_cons_of_mem _ hmem, hne⟩
        · exact .inr ⟨heq, .inl ⟨listed, List.mem_cons_of_mem _ hmem, hpushed⟩⟩
        · refine .inr ⟨heq, .inr ⟨fun hmem => ?_, hpushed⟩⟩
          rcases List.mem_cons.mp hmem with rfl | hmem
          · exact ne_of_lt hless rfl
          · exact hnew hmem

variable [DecidableEq κ]

/-- **The groups of a list**: in order, each with the items of its key. -/
theorem groups_spec (key : α → κ) (items : List α) :
    Ordered (groups key items) ∧
      (∀ entry ∈ groups key items, entry.2 = items.filter fun a => decide (key a = entry.1)) ∧
      ∀ a ∈ items, key a ∈ (groups key items).map Prod.fst := by
  unfold groups
  refine foldl_invariant
    (fun (seen : List α) (map : List (κ × List α)) => Ordered map ∧
      (∀ entry ∈ map, entry.2 = seen.filter fun a => decide (key a = entry.1)) ∧
      ∀ a ∈ seen, key a ∈ map.map Prod.fst) ⟨List.Pairwise.nil, nofun, nofun⟩ ?_
  rintro seen a rest map - ⟨hordered, hlists, hkeys⟩
  refine ⟨ordered_pushBack hordered, fun entry hentry => ?_, fun other hother => ?_⟩
  · rw [List.filter_append, List.filter_cons, List.filter_nil]
    rcases mem_pushBack hordered hentry with ⟨hmem, hne⟩ | ⟨heq, ⟨listed, hmem, hpushed⟩ | ⟨hnew, hpushed⟩⟩
    · have hother : ¬ decide (key a = entry.1) = true := fun heq => hne (of_decide_eq_true heq).symm
      rw [hlists entry hmem, if_neg hother, List.append_nil]
    · have hself : decide (key a = entry.1) = true := decide_eq_true heq.symm
      have hlisted : listed = seen.filter fun other => decide (key other = key a) := hlists _ hmem
      rw [hpushed, if_pos hself, hlisted, heq]
    · have hself : decide (key a = entry.1) = true := decide_eq_true heq.symm
      have hnone : seen.filter (fun a => decide (key a = entry.1)) = [] := by
        rw [List.filter_eq_nil_iff]
        intro other hother hsame
        exact hnew (heq ▸ of_decide_eq_true hsame ▸ hkeys other hother)
      rw [hpushed, if_pos hself, hnone]
      rfl
  · refine mem_keys_pushBack ?_
    rcases List.mem_append.mp hother with hother | hother
    · exact .inr (hkeys other hother)
    · obtain rfl := List.mem_singleton.mp hother
      exact .inl rfl

end StateSpec
