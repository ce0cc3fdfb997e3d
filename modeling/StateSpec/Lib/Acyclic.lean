/-
  ORDERS WITHOUT CONFLICTS — putting the items of a list in an order that respects a relation.

  `R a b` says that `b` has to come before `a`.  Some order of the items respects the relation
  exactly when it has no cycle among them (`exists_order_iff`): a linear extension of its closure
  sorts them, and in a list that respects it the first item is on no cycle.
-/
import Mathlib.Data.List.Sort
import Mathlib.Logic.Relation
import Mathlib.Order.Extension.Linear

namespace StateSpec

open Relation

variable {α : Type} {R : α → α → Prop}

/-- The relation among the items of a list. -/
def Among (R : α → α → Prop) (l : List α) (a b : α) : Prop := a ∈ l ∧ b ∈ l ∧ R a b

/-- The relation has no cycle among the items of a list. -/
def AcyclicOn (R : α → α → Prop) (l : List α) : Prop := ∀ a, ¬ TransGen (Among R l) a a

/-- In an order that respects the relation, what leads to a later item is later itself. -/
theorem transGen_tail {x : α} {l : List α} (hx : ∀ b ∈ l, ¬ R x b) {a b : α}
    (h : TransGen (Among R (x :: l)) a b) (hb : b ∈ l) : TransGen (Among R l) a b := by
  have hsource : ∀ {a b}, Among R (x :: l) a b → b ∈ l → Among R l a b := by
    rintro a b ⟨ha, -, hab⟩ hb
    rcases List.mem_cons.mp ha with rfl | ha
    · exact absurd hab (hx b hb)
    · exact ⟨ha, hb, hab⟩
  induction h with
  | single h => exact TransGen.single (hsource h hb)
  | tail _ h ih =>
    have hlast := hsource h hb
    exact TransGen.tail (ih hlast.1) hlast

/-- **An order that respects a relation leaves no room for a cycle.** -/
theorem acyclicOn_of_pairwise {l : List α} (hirrefl : ∀ a, ¬ R a a)
    (h : l.Pairwise fun a b => ¬ R a b) : AcyclicOn R l := by
  induction l with
  | nil =>
    intro a hcycle
    obtain ⟨b, hb, -⟩ := TransGen.head'_iff.mp hcycle
    exact absurd hb.1 List.not_mem_nil
  | cons x l ih =>
    obtain ⟨hx, hl⟩ := List.pairwise_cons.mp h
    intro a hcycle
    obtain ⟨b, ⟨ha, hb, hab⟩, -⟩ := TransGen.head'_iff.mp hcycle
    rcases List.mem_cons.mp ha with rfl | ha
    · -- nothing leads away from the first item
      rcases List.mem_cons.mp hb with rfl | hb
      · exact hirrefl _ hab
      · exact hx b hb hab
    · exact ih hl a (transGen_tail hx hcycle ha)

/-- **Without a cycle there is an order that respects the relation.** -/
theorem exists_pairwise_of_acyclicOn {l : List α} (h : AcyclicOn R l) :
    ∃ l' : List α, l'.Perm l ∧ l'.Pairwise fun a b => ¬ R a b := by
  classical
  -- what must not come later, closed under reflexivity and transitivity, is a partial order
  let r : α → α → Prop := fun a b => ReflTransGen (Among R l) b a
  have hpartial : IsPartialOrder α r :=
    { refl := fun a => ReflTransGen.refl
      trans := fun a b c hab hbc => hbc.trans hab
      antisymm := fun a b hab hba => by
        rcases reflTransGen_iff_eq_or_transGen.mp hab with heq | hab
        · exact heq
        · exact absurd (TransGen.trans_left hab hba) (h b) }
  obtain ⟨s, hs, hrs⟩ := extend_partialOrder r
  refine ⟨l.insertionSort s, List.perm_insertionSort s l, ?_⟩
  have hsorted : (l.insertionSort s).Pairwise s := List.pairwise_insertionSort s l
  refine List.Pairwise.imp_of_mem ?_ hsorted
  intro a b ha hb hab hR
  have hedge : Among R l a b :=
    ⟨(List.mem_insertionSort s).mp ha, (List.mem_insertionSort s).mp hb, hR⟩
  obtain rfl : a = b := hs.antisymm a b hab (hrs b a (ReflTransGen.single hedge))
  exact h a (TransGen.single hedge)

theorem exists_order_iff {l : List α} (hirrefl : ∀ a, ¬ R a a) :
    (∃ l' : List α, l'.Perm l ∧ l'.Pairwise fun a b => ¬ R a b) ↔ AcyclicOn R l := by
  refine ⟨?_, exists_pairwise_of_acyclicOn⟩
  rintro ⟨l', hperm, hl'⟩
  have hsame : Among R l' = Among R l := by
    funext a b
    rw [Among, Among, hperm.mem_iff, hperm.mem_iff]
  have hacyclic := acyclicOn_of_pairwise hirrefl hl'
  rwa [AcyclicOn, hsame] at hacyclic

end StateSpec
