/-
  DEPTH-FIRST ORDERS — directed graphs whose vertices list their edges in an order, for any type of
  vertices and of edges.

  A depth-first search is done with a vertex when it is done with everything its edges lead to; so the
  vertices stand, in the order in which it is done with them, behind all that they link to: `Postorder`.
  1. A postorder is closed: what its vertices lead to is in it (`Postorder.leads`).
  2. No vertex of a postorder is on a cycle (`Postorder.acyclic`).
  The search comes to a vertex through the `Leftmost` chain of edges to it: the chain no edge of which
  stands behind another one, of the same vertex, that leads there as well.
-/
import Mathlib.Data.List.Nodup
import Mathlib.Logic.Relation

namespace StateSpec

/-- A directed graph: the edges of every vertex, in order, and where they end. -/
structure Network (α ε : Type) where
  out : α → List ε
  target : α → ε → α

namespace Network

variable {α ε : Type}

/-- An edge from one vertex to another. -/
def Link (g : Network α ε) (a b : α) : Prop := ∃ e ∈ g.out a, g.target a e = b

/-- A chain of edges from one vertex to another, perhaps of none. -/
def Leads (g : Network α ε) : α → α → Prop := Relation.ReflTransGen g.Link

/-- The vertex is on a cycle. -/
def OnCycle (g : Network α ε) (a : α) : Prop := Relation.TransGen g.Link a a

/-- The leftmost chain of edges from `a` to `v` ends with the edge `e` of `u`: no edge that stands before
    one of the chain leads to `v`. -/
inductive Leftmost (g : Network α ε) (v : α) : α → α → ε → Prop where
  | ends {a : α} {before after : List ε} {e : ε} :
      g.out a = before ++ e :: after → (∀ e' ∈ before, ¬ g.Leads (g.target a e') v) →
      g.target a e = v → Leftmost g v a a e
  | follows {a u : α} {before after : List ε} {e e' : ε} :
      g.out a = before ++ e :: after → (∀ e' ∈ before, ¬ g.Leads (g.target a e') v) →
      Leftmost g v (g.target a e) u e' → Leftmost g v a u e'

/-- The vertices of the list are distinct, and each stands behind all that it links to. -/
structure Postorder (g : Network α ε) (l : List α) : Prop where
  nodup : l.Nodup
  behind : ∀ {before a after}, l = before ++ a :: after → ∀ {b}, g.Link a b → b ∈ before

variable {g : Network α ε} {a b c u v : α} {e : ε} {l : List α}

/-! ## Chains -/

theorem Leads.refl (a : α) : g.Leads a a := Relation.ReflTransGen.refl

theorem Leads.trans (hab : g.Leads a b) (hbc : g.Leads b c) : g.Leads a c :=
  Relation.ReflTransGen.trans hab hbc

theorem Link.leads (h : g.Link a b) : g.Leads a b := Relation.ReflTransGen.single h

theorem link_of_out {before after : List ε} (h : g.out a = before ++ e :: after) :
    g.Link a (g.target a e) := by
  refine ⟨e, ?_, rfl⟩
  rw [h]
  exact List.mem_append_right _ List.mem_cons_self

/-- What the leftmost chain ends with is an edge, of a vertex that `a` leads to. -/
theorem Leftmost.leads_link (h : g.Leftmost v a u e) :
    g.Leads a u ∧ e ∈ g.out u ∧ g.target u e = v := by
  induction h with
  | @ends a before after e hout hbefore htarget =>
    refine ⟨Leads.refl a, ?_, htarget⟩
    rw [hout]
    exact List.mem_append_right _ List.mem_cons_self
  | follows hout hbefore hchain ih =>
    exact ⟨(link_of_out hout).leads.trans ih.1, ih.2⟩

theorem Leftmost.leads (h : g.Leftmost v a u e) : g.Leads a v := by
  obtain ⟨hleads, hmem, htarget⟩ := h.leads_link
  exact hleads.trans (Link.leads ⟨e, hmem, htarget⟩)

/-- On a cycle there are at least two vertices, or one that links to itself. -/
theorem onCycle_of_link (hlink : g.Link a b) (hleads : g.Leads b a) : g.OnCycle a :=
  Relation.TransGen.head' hlink hleads

/-! ## Postorders -/

theorem Postorder.nil : g.Postorder [] where
  nodup := List.nodup_nil
  behind := by
    intro before a after h
    exact absurd h (List.append_ne_nil_of_right_ne_nil before (List.cons_ne_nil a after)).symm

/-- The search is done with a vertex. -/
theorem Postorder.snoc (h : g.Postorder l) (ha : a ∉ l) (hout : ∀ b, g.Link a b → b ∈ l) :
    g.Postorder (l ++ [a]) where
  nodup := by
    rw [List.nodup_append]
    refine ⟨h.nodup, List.nodup_singleton a, ?_⟩
    rintro b hb c hc rfl
    rw [List.mem_singleton] at hc
    exact ha (hc ▸ hb)
  behind := by
    intro before c after heq b hlink
    rcases List.eq_nil_or_concat after with rfl | ⟨rest, d, rfl⟩
    · -- the vertex the search is done with
      obtain ⟨rfl, hc⟩ := List.append_inj' heq rfl
      cases hc
      exact hout b hlink
    · have hshort : l ++ [a] = (before ++ c :: rest) ++ [d] := by
        rw [heq, List.concat_eq_append, List.append_assoc, List.cons_append]
      obtain ⟨hl, -⟩ := List.append_inj' hshort rfl
      exact h.behind hl hlink

theorem Postorder.link (h : g.Postorder l) (ha : a ∈ l) (hlink : g.Link a b) : b ∈ l := by
  obtain ⟨before, after, rfl⟩ := List.append_of_mem ha
  exact List.mem_append_left _ (h.behind rfl hlink)

theorem Postorder.leads (h : g.Postorder l) (ha : a ∈ l) (hleads : g.Leads a b) : b ∈ l := by
  induction hleads with
  | refl => exact ha
  | tail _ hlink ih => exact h.link ih hlink

/-- A chain of at least one edge ends before the vertex it begins at. -/
theorem Postorder.before {before after : List α} (h : g.Postorder l) (hl : l = before ++ a :: after)
    (hchain : Relation.TransGen g.Link a b) : b ∈ before := by
  induction hchain with
  | single hlink => exact h.behind hl hlink
  | @tail b c _ hlink ih =>
    obtain ⟨before', after', rfl⟩ := List.append_of_mem ih
    have hb : l = before' ++ b :: (after' ++ a :: after) := by
      rw [hl, List.append_assoc, List.cons_append]
    exact List.mem_append_left _ (h.behind hb hlink)

theorem Postorder.acyclic (h : g.Postorder l) (ha : a ∈ l) : ¬ g.OnCycle a := by
  intro hcycle
  obtain ⟨before, after, rfl⟩ := List.append_of_mem ha
  have hmem := h.before rfl hcycle
  have hnodup := h.nodup
  rw [List.nodup_append] at hnodup
  exact hnodup.2.2 a hmem a List.mem_cons_self rfl

end Network

end StateSpec
