/-
  COMPOSITION — what `load_composed_spec` makes of a set of files, in terms of their include directives.

  1. It returns (`loadComposedSpec_returns`): a path that is loaded is not loaded again.
  2. Without errors it has gone through the files in a postorder of the directives, each once
     (`loadComposedSpec_clean`); so none is missing, none is on a cycle, the tenant scopes do not differ, and
     neither do the versions at the end of a leftmost chain.
  3. Where all this is so it makes no errors (`loadComposedSpec_clean_of`).
  So it reports an error exactly for these causes (`reportsError_iff`).  They do not include every directive
  that joins different versions, and the leftmost chains depend on the order of the directives.
-/
import StateSpec.Compiler.Includes
import Mathlib.Data.Finset.Card

namespace StateSpec.Compiler

/-! ## What is gathered -/

/-- The loaded paths are those that are done with and those on the stack. -/
def Tracks (s : Loading) (includeStack done : List Path) : Prop :=
  ∀ path, path ∈ s.loadedPaths ↔ path ∈ done ∨ path ∈ includeStack

/-- These files have been loaded, in this order. -/
structure Gathers (files : FileSystem) (s s' : Loading) (includeStack done order : List Path) : Prop where
  tracks : Tracks s' includeStack (done ++ order)
  postorder : files.graph.Postorder (done ++ order)
  fresh : ∀ path ∈ order, path ∉ s.loadedPaths
  present : ∀ path ∈ order, files.file path ≠ none

/-- A system with the members of these files, and with a tenant scope that does not differ from theirs: its
    own, if there is one. -/
structure Collects (files : FileSystem) (own : Option Bytes) (order : List Path)
    (members : (kind : MemberKind) → List kind.Decl) (scope : Option Bytes) : Prop where
  members : ∀ kind, members kind = order.flatMap (files.membersOf kind)
  keeps_own : ∀ field, own = some field → scope = some field
  scope_mem : ∀ field, scope = some field →
    own = some field ∨ ∃ path ∈ order, files.scope path = some field
  scopes : ∀ path ∈ order, ∀ field, files.scope path = some field → scope = some field

variable {files : FileSystem} {includeStack done order : List Path} {s s' s₁ : Loading}

theorem Gathers.nil (htracks : Tracks s includeStack done) (hpost : files.graph.Postorder done) :
    Gathers files s s includeStack done [] where
  tracks := by rwa [List.append_nil]
  postorder := by rwa [List.append_nil]
  fresh := by simp
  present := by simp

theorem Gathers.append {order' : List Path} (h : Gathers files s s₁ includeStack done order)
    (hgrows : s.Grows s₁) (h' : Gathers files s₁ s' includeStack (done ++ order) order') :
    Gathers files s s' includeStack done (order ++ order') where
  tracks := by
    rw [← List.append_assoc]
    exact h'.tracks
  postorder := by
    rw [← List.append_assoc]
    exact h'.postorder
  fresh := by
    intro path hpath hloaded
    rcases List.mem_append.mp hpath with hpath | hpath
    · exact h.fresh path hpath hloaded
    · exact h'.fresh path hpath (hgrows.paths hloaded)
  present := by
    intro path hpath
    rcases List.mem_append.mp hpath with hpath | hpath
    · exact h.present path hpath
    · exact h'.present path hpath

/-- An included file is merged. -/
theorem Collects.append {own scope scope' : Option Bytes} {order' : List Path}
    {members members' : (kind : MemberKind) → List kind.Decl} (h : Collects files own order members scope)
    (h' : Collects files none order' members' scope') (hscope : Compatible scope scope') :
    Collects files own (order ++ order') (fun kind => members kind ++ members' kind)
      (scope.or scope') where
  members := by
    intro kind
    rw [h.members, h'.members, List.flatMap_append]
  keeps_own := by
    intro field hown
    rw [h.keeps_own field hown]
    rfl
  scope_mem := by
    intro field heq
    rcases Option.or_eq_some_iff.mp heq with heq | ⟨-, heq⟩
    · rcases h.scope_mem field heq with hown | ⟨path, hpath, hfield⟩
      · exact .inl hown
      · exact .inr ⟨path, List.mem_append_left _ hpath, hfield⟩
    · rcases h'.scope_mem field heq with hnone | ⟨path, hpath, hfield⟩
      · cases hnone
      · exact .inr ⟨path, List.mem_append_right _ hpath, hfield⟩
  scopes := by
    intro path hpath field hfield
    rcases List.mem_append.mp hpath with hpath | hpath
    · rw [h.scopes path hpath field hfield]
      rfl
    · have hother := h'.scopes path hpath field hfield
      rcases hown : scope with _ | own
      · exact hother
      · rw [hscope own hown field hother]
        rfl

/-- The search is done with a file, whose directives lead to what was done before. -/
theorem Gathers.snoc {path : Path} {diagnostics : List Diagnostic}
    (h : Gathers files ⟨diagnostics, path :: s.loadedPaths⟩ s' (includeStack ++ [path]) done order)
    (hfile : files.file path ≠ none) (hloaded : path ∉ s.loadedPaths) (hnew : path ∉ done)
    (hlinks : ∀ b, files.graph.Link path b → b ∈ done ++ order) :
    Gathers files s s' includeStack done (order ++ [path]) where
  tracks := by
    intro q
    rw [h.tracks q, ← List.append_assoc, List.mem_append, List.mem_append, List.mem_append,
      List.mem_append]
    tauto
  postorder := by
    rw [← List.append_assoc]
    refine h.postorder.snoc ?_ hlinks
    intro hmem
    rcases List.mem_append.mp hmem with hmem | hmem
    · exact hnew hmem
    · exact h.fresh path hmem List.mem_cons_self
  fresh := by
    intro q hq hmem
    rcases List.mem_append.mp hq with hq | hq
    · exact h.fresh q hq (List.mem_cons_of_mem _ hmem)
    · rw [List.mem_singleton] at hq
      exact hloaded (hq ▸ hmem)
  present := by
    intro q hq
    rcases List.mem_append.mp hq with hq | hq
    · exact h.present q hq
    · rw [List.mem_singleton] at hq
      exact hq ▸ hfile

/-- The members of a file come behind those of what it includes. -/
theorem Collects.snoc {path : Path} {composed system : SystemDecl}
    (h : Collects files system.scope order composed.membersOf composed.scope)
    (hmembers : ∀ kind, files.membersOf kind path = system.membersOf kind)
    (hscope : files.scope path = system.scope) :
    Collects files none (order ++ [path]) (appendSystemMembers composed system).membersOf
      composed.scope where
  members := by
    intro kind
    rw [membersOf_appendSystemMembers, h.members kind, List.flatMap_append, ← hmembers kind,
      List.flatMap_singleton]
  keeps_own := by simp
  scope_mem := by
    intro field hfield
    rcases h.scope_mem field hfield with hown | ⟨q, hq, hfield⟩
    · exact .inr ⟨path, by simp, hscope.trans hown⟩
    · exact .inr ⟨q, List.mem_append_left _ hq, hfield⟩
  scopes := by
    intro q hq field hfield
    rcases List.mem_append.mp hq with hq | hq
    · exact h.scopes q hq field hfield
    · rw [List.mem_singleton] at hq
      rw [hq, hscope] at hfield
      exact h.keeps_own field hfield

/-! ## Loading without errors -/

/-- What a path is after it has been loaded without errors. -/
structure LoadsAll (files : FileSystem) (s s' : Loading) (includeStack done : List Path) (path : Path)
    (spec : Spec) (order : List Path) : Prop where
  gathers : Gathers files s s' includeStack done order
  off_stack : path ∉ includeStack
  mem : path ∈ done ++ order
  leads : ∀ q ∈ order, files.graph.Leads path q
  collects : Collects files none order spec.membersOf spec.scope
  version_done : path ∈ done → spec.version = none
  version : path ∉ done → spec.version = files.version path
  leftmost : path ∉ done → ∀ v ∉ done, ∀ u directive, files.graph.Leftmost v path u directive →
    Compatible (files.version u) (files.version v)

/-- What is left of a file's directives, after they have been followed without errors. -/
structure IncludesAll (files : FileSystem) (s s' : Loading) (includeStack done : List Path) (path : Path)
    (spec : Spec) (directives : List IncludeDecl) (order : List Path) : Prop where
  gathers : Gathers files s s' includeStack done order
  mem : ∀ directive ∈ directives, files.includePath path directive.path ∈ done ++ order
  leads : ∀ q ∈ order, ∃ directive ∈ directives,
    files.graph.Leads (files.includePath path directive.path) q
  leftmost : ∀ v ∉ done, ∀ before directive after, directives = before ++ directive :: after →
    (∀ e ∈ before, ¬ files.graph.Leads (files.includePath path e.path) v) →
    (files.includePath path directive.path = v → Compatible spec.version (files.version v)) ∧
    ∀ u directive', files.graph.Leftmost v (files.includePath path directive.path) u directive' →
      Compatible (files.version u) (files.version v)

theorem composeIncludes_clean {fuel : Nat} {path : Path} {spec : Spec} {own : Option Bytes}
    (hload : ∀ {path s spec s' done}, loadComposedSpec files fuel includeStack path s = some (spec, s') →
      hasErrors s'.diagnostics = false → Tracks s includeStack done → files.graph.Postorder done →
      ∃ order, LoadsAll files s s' includeStack done path spec order)
    {directives : List IncludeDecl} {composed composed' : SystemDecl} {collected : List Path}
    (h : directives.foldlM
        (composeInclude files (loadComposedSpec files fuel includeStack) includeStack path spec)
        (composed, s) = some (composed', s'))
    (hclean : hasErrors s'.diagnostics = false) (htracks : Tracks s includeStack done)
    (hpost : files.graph.Postorder done)
    (hcollects : Collects files own collected composed.membersOf composed.scope) :
    ∃ order, IncludesAll files s s' includeStack done path spec directives order ∧
      Collects files own (collected ++ order) composed'.membersOf composed'.scope := by
  induction directives generalizing composed s done collected with
  | nil =>
    cases h
    refine ⟨[], ⟨.nil htracks hpost, by simp, by simp, ?_⟩, by rwa [List.append_nil]⟩
    intro v _ before directive after heq
    exact absurd heq (List.append_ne_nil_of_right_ne_nil before (List.cons_ne_nil directive after)).symm
  | cons directive rest ih =>
    rw [List.foldlM_cons] at h
    obtain ⟨⟨composed₁, s₁⟩, hstep, hrest⟩ := Option.bind_eq_some_iff.mp h
    have hgrows : s₁.Grows s' := includes_grow loadComposedSpec_grows hrest
    have hclean₁ : hasErrors s₁.diagnostics = false := by
      rw [Bool.eq_false_iff]
      intro herrors
      rw [hgrows.errors herrors] at hclean
      cases hclean
    obtain ⟨-, -, included, s₂, hincluded, hclean₂, hpaths, hversion, hscope, hmembers, hscope'⟩ :=
      composeInclude_clean hstep hclean₁
    obtain ⟨order, hall⟩ := hload hincluded hclean₂ htracks hpost
    have hgathers : Gathers files s s₁ includeStack done order := by
      refine ⟨?_, hall.gathers.postorder, hall.gathers.fresh, hall.gathers.present⟩
      intro q
      rw [hpaths]
      exact hall.gathers.tracks q
    have hcollects₁ : Collects files own (collected ++ order) composed₁.membersOf composed₁.scope := by
      have hmerged := hcollects.append hall.collects hscope
      rw [hscope']
      refine ⟨?_, hmerged.keeps_own, hmerged.scope_mem, hmerged.scopes⟩
      intro kind
      rw [hmembers]
      exact hmerged.members kind
    obtain ⟨order', hincludes, hcollects'⟩ := ih hrest hgathers.tracks hgathers.postorder hcollects₁
    have hgrows₁ : s.Grows s₁ := composeInclude_grows loadComposedSpec_grows hstep
    refine ⟨order ++ order', ⟨hgathers.append hgrows₁ hincludes.gathers, ?_, ?_, ?_⟩, ?_⟩
    · intro directive' hmem
      rw [← List.append_assoc]
      rcases List.mem_cons.mp hmem with rfl | hmem
      · exact List.mem_append_left _ hall.mem
      · exact hincludes.mem directive' hmem
    · intro q hq
      rcases List.mem_append.mp hq with hq | hq
      · exact ⟨directive, List.mem_cons_self, hall.leads q hq⟩
      · obtain ⟨directive', hmem, hleads⟩ := hincludes.leads q hq
        exact ⟨directive', List.mem_cons_of_mem _ hmem, hleads⟩
    · intro v hv before directive' after heq hbefore
      rcases before with _ | ⟨first, before⟩
      · -- the directive itself
        rw [List.nil_append, List.cons.injEq] at heq
        obtain ⟨rfl, -⟩ := heq
        constructor
        · rintro rfl
          rw [← hall.version hv]
          exact hversion
        · intro u directive' hchain
          have hnew : files.includePath path directive.path ∉ done := by
            intro hdone
            exact hv (hpost.leads hdone hchain.leads)
          exact hall.leftmost hnew v hv u directive' hchain
      · -- one behind it, from a directive that does not lead to `v`
        rw [List.cons_append, List.cons.injEq] at heq
        obtain ⟨rfl, heq⟩ := heq
        refine hincludes.leftmost v ?_ before directive' after heq fun e he =>
          hbefore e (List.mem_cons_of_mem _ he)
        intro hmem
        rcases List.mem_append.mp hmem with hmem | hmem
        · exact hv hmem
        · exact hbefore directive List.mem_cons_self (hall.leads v hmem)
    · rw [← List.append_assoc]
      exact hcollects'

/-- **Loading without errors**: the files a path leads to that were not done with before, in a postorder of
    the directives, become one system. -/
theorem loadComposedSpec_clean {fuel : Nat} {path : Path} {spec : Spec}
    (h : loadComposedSpec files fuel includeStack path s = some (spec, s'))
    (hclean : hasErrors s'.diagnostics = false) (htracks : Tracks s includeStack done)
    (hpost : files.graph.Postorder done) :
    ∃ order, LoadsAll files s s' includeStack done path spec order := by
  induction fuel generalizing includeStack path spec s s' done with
  | zero => cases h
  | succ fuel ih =>
    rcases loadComposedSpec_cases h with ⟨-, -, -, herrors⟩ | ⟨-, -, -, herrors⟩ | ⟨file, hfile, hstack, hrest⟩
    · rw [hclean] at herrors
      cases herrors
    · rw [hclean] at herrors
      cases herrors
    rcases hrest with ⟨hloaded, rfl, rfl⟩ | ⟨hloaded, hrest⟩
    · -- loaded before, and so done with
      have hdone : path ∈ done := ((htracks path).mp hloaded).resolve_right hstack
      refine ⟨[], .nil htracks hpost, hstack, by rwa [List.append_nil], by simp, ?_, fun _ => rfl,
        fun hnew => absurd hdone hnew, fun hnew => absurd hdone hnew⟩
      exact ⟨fun kind => rfl, by simp, by simp [Spec.scope], by simp⟩
    rcases hrest with ⟨herrors, -, rfl⟩ | ⟨-, system, composed, hsystem, hfold, rfl⟩
    · have hboth : hasErrors (s.diagnostics ++ file.diagnostics) = true := by
        rw [hasErrors_append, herrors, Bool.true_or]
      rw [hclean] at hboth
      cases hboth
    have hnew : path ∉ done := fun hdone => hloaded ((htracks path).mpr (.inl hdone))
    have htracks₀ : Tracks ⟨s.diagnostics ++ file.diagnostics, path :: s.loadedPaths⟩
        (includeStack ++ [path]) done := by
      intro q
      rw [List.mem_cons, htracks q, List.mem_append, List.mem_singleton]
      tauto
    have hown : Collects files system.scope [] system.clearMembers.membersOf system.clearMembers.scope := by
      refine ⟨?_, fun _ => id, fun field hfield => .inl hfield, by simp⟩
      intro kind
      cases kind <;> rfl
    obtain ⟨order, hincludes, hcollects⟩ := composeIncludes_clean ih hfold hclean htracks₀ hpost hown
    rw [List.nil_append] at hcollects
    have hout : files.graph.out path = file.spec.includes := by
      show (files.file path).elim [] _ = _
      rw [hfile]
      rfl
    have hversion : files.version path = file.spec.version := by
      rw [FileSystem.version, hfile]
      rfl
    have hscope : files.scope path = system.scope := by
      rw [FileSystem.scope, hfile, Option.bind_some, Spec.scope, hsystem]
      rfl
    have hmembers : ∀ kind, files.membersOf kind path = system.membersOf kind := by
      intro kind
      rw [FileSystem.membersOf, hfile, Option.elim_some, Spec.membersOf, hsystem]
      rfl
    have hlinks : ∀ b, files.graph.Link path b → b ∈ done ++ order := by
      rintro b ⟨directive, hmem, rfl⟩
      rw [hout] at hmem
      exact hincludes.mem directive hmem
    have hpresent : files.file path ≠ none := by
      rw [hfile]
      exact Option.some_ne_none file
    refine ⟨order ++ [path], hincludes.gathers.snoc hpresent hloaded hnew hlinks, hstack, by simp, ?_,
      hcollects.snoc hmembers hscope, fun hdone => absurd hdone hnew, fun _ => hversion.symm, ?_⟩
    · intro q hq
      rcases List.mem_append.mp hq with hq | hq
      · obtain ⟨directive, hmem, hleads⟩ := hincludes.leads q hq
        have hlink : files.graph.Link path (files.includePath path directive.path) :=
          ⟨directive, hout ▸ hmem, rfl⟩
        exact hlink.leads.trans hleads
      · rw [List.mem_singleton] at hq
        rw [hq]
        exact Network.Leads.refl path
    · intro _ v hv u directive hchain
      cases hchain with
      | @ends _ before after _ hsplit hbefore htarget =>
        rw [hversion]
        exact (hincludes.leftmost v hv before directive after (hout ▸ hsplit) hbefore).1 htarget
      | @follows _ _ before after first _ hsplit hbefore hchain =>
        exact (hincludes.leftmost v hv before first after (hout ▸ hsplit) hbefore).2 u directive hchain

/-! ## What makes no errors -/

/-- Nothing a path leads to is missing, on a cycle, on the stack, or has another tenant scope, and no leftmost
    chain to what is not done with ends with different versions. -/
structure Faultless (files : FileSystem) (includeStack done : List Path) (path : Path) : Prop where
  present : ∀ q, files.graph.Leads path q → files.file q ≠ none
  acyclic : ∀ q, files.graph.Leads path q → ¬ files.graph.OnCycle q
  off_stack : ∀ q ∈ includeStack, ¬ files.graph.Leads path q
  scopes : ∀ q q', files.graph.Leads path q → files.graph.Leads path q' →
    Compatible (files.scope q) (files.scope q')
  versions : path ∉ done → ∀ v ∉ done, ∀ u directive, files.graph.Leftmost v path u directive →
    Compatible (files.version u) (files.version v)

/-- What a directive of a faultless file leads to is faultless. -/
theorem Faultless.included {path : Path} {file : SourceFile} {before after : List IncludeDecl}
    {directive : IncludeDecl} {done' : List Path} (h : Faultless files includeStack done path)
    (hfile : files.file path = some file) (hnew : path ∉ done) (hsub : done ⊆ done')
    (hpost : files.graph.Postorder done') (hsplit : file.spec.includes = before ++ directive :: after)
    (hbefore : ∀ e ∈ before, files.includePath path e.path ∈ done') :
    Faultless files (includeStack ++ [path]) done' (files.includePath path directive.path) ∧
      (files.includePath path directive.path ∉ done' →
        Compatible file.spec.version (files.version (files.includePath path directive.path))) := by
  have hout : files.graph.out path = before ++ directive :: after := by
    rw [← hsplit]
    show (files.file path).elim [] _ = _
    rw [hfile]
    rfl
  have hlink : files.graph.Link path (files.includePath path directive.path) := Network.link_of_out hout
  -- a directive before this one does not lead to what is not done with
  have hpassed : ∀ v ∉ done', ∀ e ∈ before, ¬ files.graph.Leads (files.includePath path e.path) v := by
    intro v hv e he hleads
    exact hv (hpost.leads (hbefore e he) hleads)
  constructor
  · refine ⟨fun q hq => h.present q (hlink.leads.trans hq), fun q hq => h.acyclic q (hlink.leads.trans hq),
      ?_, fun q q' hq hq' => h.scopes q q' (hlink.leads.trans hq) (hlink.leads.trans hq'), ?_⟩
    · intro q hq hleads
      rcases List.mem_append.mp hq with hq | hq
      · exact h.off_stack q hq (hlink.leads.trans hleads)
      · rw [List.mem_singleton] at hq
        rw [hq] at hleads
        exact h.acyclic path (.refl path) (Network.onCycle_of_link hlink hleads)
    · intro _ v hv u directive' hchain
      exact h.versions hnew v (fun hmem => hv (hsub hmem)) u directive'
        (.follows hout (hpassed v hv) hchain)
  · intro hv
    have hversion : files.version path = file.spec.version := by
      rw [FileSystem.version, hfile]
      rfl
    rw [← hversion]
    exact h.versions hnew _ (fun hmem => hv (hsub hmem)) path directive (.ends hout (hpassed _ hv) rfl)

theorem composeIncludes_clean_of {fuel : Nat} {path : Path} {file : SourceFile} {done' : List Path}
    {before directives : List IncludeDecl} {composed composed' : SystemDecl}
    (hload : ∀ {q s spec s' done},
      loadComposedSpec files fuel (includeStack ++ [path]) q s = some (spec, s') →
      hasErrors s.diagnostics = false → Tracks s (includeStack ++ [path]) done → files.graph.Postorder done →
      Faultless files (includeStack ++ [path]) done q → hasErrors s'.diagnostics = false)
    (h : directives.foldlM
        (composeInclude files (loadComposedSpec files fuel (includeStack ++ [path])) (includeStack ++ [path])
          path file.spec)
        (composed, s) = some (composed', s'))
    (hclean : hasErrors s.diagnostics = false) (htracks : Tracks s (includeStack ++ [path]) done')
    (hpost : files.graph.Postorder done') (hfaultless : Faultless files includeStack done path)
    (hfile : files.file path = some file) (hnew : path ∉ done) (hsub : done ⊆ done')
    (hsplit : file.spec.includes = before ++ directives)
    (hbefore : ∀ e ∈ before, files.includePath path e.path ∈ done')
    (hscope : ∀ q, files.graph.Leads path q → Compatible composed.scope (files.scope q)) :
    hasErrors s'.diagnostics = false := by
  induction directives generalizing composed s done' before with
  | nil =>
    cases h
    exact hclean
  | cons directive rest ih =>
    rw [List.foldlM_cons] at h
    obtain ⟨⟨composed₁, s₁⟩, hstep, hrest⟩ := Option.bind_eq_some_iff.mp h
    obtain ⟨hincluded, hversions⟩ := hfaultless.included hfile hnew hsub hpost hsplit hbefore
    have hpresent := hincluded.present _ (.refl _)
    have hoff : files.includePath path directive.path ∉ includeStack ++ [path] := by
      intro hmem
      exact hincluded.off_stack _ hmem (.refl _)
    rcases composeInclude_cases hstep with ⟨hmissing, -⟩ | ⟨hmem, -⟩ | ⟨-, -, included, s₂, hloaded, -⟩
    · exact absurd hmissing hpresent
    · exact absurd hmem hoff
    have hclean₂ := hload hloaded hclean htracks hpost hincluded
    obtain ⟨order, hall⟩ := loadComposedSpec_clean hloaded hclean₂ htracks hpost
    have hlink : files.graph.Link path (files.includePath path directive.path) := by
      refine @Network.link_of_out _ _ files.graph path directive before rest ?_
      rw [← hsplit]
      show (files.file path).elim [] _ = _
      rw [hfile]
      rfl
    have hversion : Compatible file.spec.version included.version := by
      by_cases hdone : files.includePath path directive.path ∈ done'
      · rw [hall.version_done hdone]
        intro x _ y hy
        cases hy
      · rw [hall.version hdone]
        exact hversions hdone
    have hscopes : Compatible composed.scope included.scope := by
      intro x hx y hy
      rcases hall.collects.scope_mem y hy with hnone | ⟨q, hq, hfield⟩
      · cases hnone
      · exact hscope q (hlink.leads.trans (hall.leads q hq)) x hx y hfield
    have hclean₁ := composeInclude_clean_of hstep hpresent hoff hloaded hclean₂ hversion hscopes
    obtain ⟨-, -, included', s₂', hloaded', -, hpaths, -, -, -, hscope'⟩ :=
      composeInclude_clean hstep hclean₁
    rw [hloaded] at hloaded'
    cases hloaded'
    have hsplit' : file.spec.includes = (before ++ [directive]) ++ rest := by
      rw [hsplit, List.append_assoc, List.singleton_append]
    refine ih hrest hclean₁ ?_ hall.gathers.postorder (fun q hq => List.mem_append_left _ (hsub hq)) hsplit' ?_ ?_
    · intro q
      rw [hpaths]
      exact hall.gathers.tracks q
    · intro e he
      rcases List.mem_append.mp he with he | he
      · exact List.mem_append_left _ (hbefore e he)
      · rw [List.mem_singleton] at he
        rw [he]
        exact hall.mem
    · -- the scope of the composed system is that of a file `path` leads to
      intro q hq x hx y hy
      rw [hscope'] at hx
      rcases Option.or_eq_some_iff.mp hx with hx | ⟨-, hx⟩
      · exact hscope q hq x hx y hy
      · rcases hall.collects.scope_mem x hx with hnone | ⟨q', hq', hfield⟩
        · cases hnone
        · exact hfaultless.scopes q' q (hlink.leads.trans (hall.leads q' hq')) hq x hfield y hy

/-- **Nothing else makes errors.** -/
theorem loadComposedSpec_clean_of {fuel : Nat} {path : Path} {spec : Spec}
    (h : loadComposedSpec files fuel includeStack path s = some (spec, s'))
    (hclean : hasErrors s.diagnostics = false) (htracks : Tracks s includeStack done)
    (hpost : files.graph.Postorder done) (hfaultless : Faultless files includeStack done path) :
    hasErrors s'.diagnostics = false := by
  induction fuel generalizing includeStack path spec s s' done with
  | zero => cases h
  | succ fuel ih =>
    rcases loadComposedSpec_cases h with ⟨hmem, -⟩ | ⟨hmissing, -⟩ | ⟨file, hfile, -, hrest⟩
    · exact absurd (.refl path) (hfaultless.off_stack path hmem)
    · exact absurd hmissing (hfaultless.present path (.refl path))
    rcases hrest with ⟨-, -, rfl⟩ | ⟨hloaded, hrest⟩
    · exact hclean
    rcases hrest with ⟨herrors, -⟩ | ⟨-, system, composed, hsystem, hfold, -⟩
    · rw [hclean] at herrors
      cases herrors
    have hnew : path ∉ done := fun hdone => hloaded ((htracks path).mpr (.inl hdone))
    have hscope : files.scope path = system.scope := by
      rw [FileSystem.scope, hfile, Option.bind_some, Spec.scope, hsystem]
      rfl
    refine composeIncludes_clean_of ih hfold ?_ ?_ hpost hfaultless hfile hnew (List.Subset.refl done)
      (List.nil_append file.spec.includes).symm (by simp) ?_
    · rw [hasErrors_append, hclean, file.clean]
      rfl
    · intro q
      rw [List.mem_cons, htracks q, List.mem_append, List.mem_singleton]
      tauto
    · intro q hq
      show Compatible system.scope (files.scope q)
      rw [← hscope]
      exact hfaultless.scopes path q (.refl path) hq

/-! ## Loading returns -/

/-- How many files have not been loaded. -/
def FileSystem.left (files : FileSystem) (s : Loading) : Nat :=
  (files.paths.toFinset \ s.loadedPaths.toFinset).card

theorem Loading.Grows.left_le (h : s.Grows s') : files.left s' ≤ files.left s := by
  apply Finset.card_le_card
  apply Finset.sdiff_subset_sdiff (Finset.Subset.refl _)
  intro q hq
  rw [List.mem_toFinset] at hq ⊢
  exact h.paths hq

/-- A path that is loaded is one less. -/
theorem FileSystem.left_lt {path : Path} {diagnostics : List Diagnostic} (hfile : files.file path ≠ none)
    (hnew : path ∉ s.loadedPaths) : files.left ⟨diagnostics, path :: s.loadedPaths⟩ < files.left s := by
  apply Finset.card_lt_card
  rw [Finset.ssubset_iff_of_subset]
  · refine ⟨path, ?_, ?_⟩
    · rw [Finset.mem_sdiff, List.mem_toFinset, List.mem_toFinset]
      exact ⟨files.mem_paths path hfile, hnew⟩
    · intro hmem
      rw [Finset.mem_sdiff, List.mem_toFinset, List.mem_toFinset] at hmem
      exact hmem.2 List.mem_cons_self
  · apply Finset.sdiff_subset_sdiff (Finset.Subset.refl _)
    intro q hq
    rw [List.mem_toFinset] at hq ⊢
    exact List.mem_cons_of_mem _ hq

theorem composeInclude_returns {load : Path → Loading → Option (Spec × Loading)} {path : Path} {spec : Spec}
    {directive : IncludeDecl} {composed : SystemDecl}
    (h : ∃ r, load (files.includePath path directive.path) s = some r) :
    ∃ r, composeInclude files load includeStack path spec (composed, s) directive = some r := by
  obtain ⟨r, hr⟩ := h
  unfold composeInclude
  dsimp only
  split
  · exact ⟨_, rfl⟩
  · split
    · exact ⟨_, rfl⟩
    · rw [hr]
      exact ⟨_, rfl⟩

theorem composeIncludes_returns {fuel : Nat} {path : Path} {spec : Spec} {directives : List IncludeDecl}
    {composed : SystemDecl}
    (hload : ∀ {q s}, files.left s < fuel → ∃ r, loadComposedSpec files fuel includeStack q s = some r)
    (hleft : files.left s < fuel) :
    ∃ r, directives.foldlM
      (composeInclude files (loadComposedSpec files fuel includeStack) includeStack path spec)
      (composed, s) = some r := by
  induction directives generalizing composed s with
  | nil => exact ⟨_, rfl⟩
  | cons directive rest ih =>
    have hfirst : ∃ r, composeInclude files (loadComposedSpec files fuel includeStack) includeStack path spec
        (composed, s) directive = some r := composeInclude_returns (hload hleft)
    obtain ⟨⟨composed₁, s₁⟩, hstep⟩ := hfirst
    have hgrows : s.Grows s₁ := composeInclude_grows loadComposedSpec_grows hstep
    have hleft₁ : files.left s₁ < fuel := Nat.lt_of_le_of_lt hgrows.left_le hleft
    obtain ⟨r, hrest⟩ := @ih s₁ composed₁ hleft₁
    refine ⟨r, ?_⟩
    rw [List.foldlM_cons]
    exact Option.bind_eq_some_iff.mpr ⟨(composed₁, s₁), hstep, hrest⟩

/-- **Loading returns** with fuel for the files that are left. -/
theorem loadComposedSpec_returns {fuel : Nat} {path : Path} (hleft : files.left s < fuel) :
    ∃ r, loadComposedSpec files fuel includeStack path s = some r := by
  induction fuel generalizing includeStack path s with
  | zero => exact absurd hleft (Nat.not_lt_zero _)
  | succ fuel ih =>
    rw [loadComposedSpec]
    split
    · exact ⟨_, rfl⟩
    rcases hfile : files.file path with _ | file
    · exact ⟨_, rfl⟩
    dsimp only
    split
    · exact ⟨_, rfl⟩
    rename_i hnew
    split
    · exact ⟨_, rfl⟩
    rcases hsystem : file.spec.system with _ | system
    · exact ⟨_, rfl⟩
    have hless : files.left ⟨s.diagnostics ++ file.diagnostics, path :: s.loadedPaths⟩ < fuel := by
      have hlt : files.left ⟨s.diagnostics ++ file.diagnostics, path :: s.loadedPaths⟩ < files.left s :=
        files.left_lt (by rw [hfile]; exact Option.some_ne_none file) hnew
      omega
    have hreturns : ∃ r, file.spec.includes.foldlM
        (composeInclude files (loadComposedSpec files fuel (includeStack ++ [path])) (includeStack ++ [path])
          path file.spec)
        (system.clearMembers, ⟨s.diagnostics ++ file.diagnostics, path :: s.loadedPaths⟩) = some r :=
      composeIncludes_returns ih hless
    obtain ⟨r, hfold⟩ := hreturns
    dsimp only
    rw [hfold]
    exact ⟨_, rfl⟩

theorem composeInclude_more {load load' : Path → Loading → Option (Spec × Loading)} {path : Path}
    {spec : Spec} {directive : IncludeDecl} {acc r : SystemDecl × Loading}
    (hload : ∀ {q s r}, load q s = some r → load' q s = some r)
    (h : composeInclude files load includeStack path spec acc directive = some r) :
    composeInclude files load' includeStack path spec acc directive = some r := by
  unfold composeInclude at h ⊢
  dsimp only at h ⊢
  split
  · rename_i hmissing
    rwa [if_pos hmissing] at h
  · rename_i hfile
    rw [if_neg hfile] at h
    split
    · rename_i hstack
      rwa [if_pos hstack] at h
    · rename_i hstack
      rw [if_neg hstack, Option.map_eq_some_iff] at h
      obtain ⟨included, hincluded, heq⟩ := h
      rw [hload hincluded]
      exact congrArg some heq

theorem composeIncludes_more {load load' : Path → Loading → Option (Spec × Loading)} {path : Path}
    {spec : Spec} {directives : List IncludeDecl} {acc r : SystemDecl × Loading}
    (hload : ∀ {q s r}, load q s = some r → load' q s = some r)
    (h : directives.foldlM (composeInclude files load includeStack path spec) acc = some r) :
    directives.foldlM (composeInclude files load' includeStack path spec) acc = some r := by
  induction directives generalizing acc with
  | nil => exact h
  | cons directive rest ih =>
    rw [List.foldlM_cons] at h ⊢
    obtain ⟨acc', hstep, hrest⟩ := Option.bind_eq_some_iff.mp h
    exact Option.bind_eq_some_iff.mpr ⟨acc', composeInclude_more hload hstep, ih hrest⟩

/-- More fuel changes nothing. -/
theorem loadComposedSpec_more {fuel fuel' : Nat} {path : Path} {r : Spec × Loading} (hle : fuel ≤ fuel')
    (h : loadComposedSpec files fuel includeStack path s = some r) :
    loadComposedSpec files fuel' includeStack path s = some r := by
  induction fuel generalizing fuel' includeStack path s r with
  | zero => cases h
  | succ fuel ih =>
    obtain ⟨fuel', rfl⟩ : ∃ k, fuel' = k + 1 := ⟨fuel' - 1, by omega⟩
    rw [loadComposedSpec] at h ⊢
    split
    · rename_i hstack
      rwa [if_pos hstack] at h
    rename_i hstack
    rw [if_neg hstack] at h
    rcases hfile : files.file path with _ | file
    · rwa [hfile] at h
    rw [hfile] at h
    dsimp only at h ⊢
    split
    · rename_i hloaded
      rwa [if_pos hloaded] at h
    rename_i hloaded
    rw [if_neg hloaded] at h
    split
    · rename_i herrors
      rwa [if_pos herrors] at h
    rename_i herrors
    rw [if_neg herrors] at h
    rcases hsystem : file.spec.system with _ | system
    · rwa [hsystem] at h
    rw [hsystem] at h
    obtain ⟨acc, hfold, heq⟩ := Option.map_eq_some_iff.mp h
    dsimp only
    rw [composeIncludes_more (ih (Nat.le_of_succ_le_succ hle)) hfold]
    exact congrArg some heq

/-! ## What is reported -/

/-- `load_composed_spec` of a file, with nothing loaded before. -/
def loadComposed (files : FileSystem) (fuel : Nat) (root : Path) : Option (Spec × Loading) :=
  loadComposedSpec files fuel [] root {}

/-- It returns with an error. -/
def ReportsError (files : FileSystem) (root : Path) : Prop :=
  ∃ fuel spec s, loadComposed files fuel root = some (spec, s) ∧ hasErrors s.diagnostics = true

/-- A file that is included does not exist. -/
def Missing (files : FileSystem) (root : Path) : Prop :=
  ∃ q, files.graph.Leads root q ∧ files.file q = none

def Cyclic (files : FileSystem) (root : Path) : Prop :=
  ∃ q, files.graph.Leads root q ∧ files.graph.OnCycle q

def ScopesConflict (files : FileSystem) (root : Path) : Prop :=
  ∃ q q', files.graph.Leads root q ∧ files.graph.Leads root q' ∧
    ¬ Compatible (files.scope q) (files.scope q')

/-- A file includes one with another version. -/
def VersionsDiffer (files : FileSystem) (root : Path) : Prop :=
  ∃ u v, files.graph.Leads root u ∧ files.graph.Link u v ∧
    ¬ Compatible (files.version u) (files.version v)

/-- The leftmost chain of directives to some file ends with one of them. -/
def LeftmostDiffer (files : FileSystem) (root : Path) : Prop :=
  ∃ v u directive, files.graph.Leftmost v root u directive ∧
    ¬ Compatible (files.version u) (files.version v)

theorem LeftmostDiffer.versionsDiffer {root : Path} (h : LeftmostDiffer files root) :
    VersionsDiffer files root := by
  obtain ⟨v, u, directive, hchain, hdiffer⟩ := h
  obtain ⟨hleads, hmem, htarget⟩ := hchain.leads_link
  exact ⟨u, v, hleads, ⟨directive, hmem, htarget⟩, hdiffer⟩

theorem tracks_nil : Tracks {} [] [] := by
  intro q
  simp

/-- **The causes of errors.** -/
theorem reportsError_iff {root : Path} : ReportsError files root ↔
    Missing files root ∨ Cyclic files root ∨ ScopesConflict files root ∨ LeftmostDiffer files root := by
  constructor
  · rintro ⟨fuel, spec, s, hload, herrors⟩
    by_contra hcauses
    simp only [not_or] at hcauses
    obtain ⟨hpresent, hacyclic, hscopes, hversions⟩ := hcauses
    have hclean := loadComposedSpec_clean_of hload rfl tracks_nil .nil
      { present := fun q hq hmissing => hpresent ⟨q, hq, hmissing⟩
        acyclic := fun q hq hcycle => hacyclic ⟨q, hq, hcycle⟩
        off_stack := fun q hq => absurd hq List.not_mem_nil
        scopes := fun q q' hq hq' => by
          by_contra hdiffer
          exact hscopes ⟨q, q', hq, hq', hdiffer⟩
        versions := fun _ v _ u directive hchain => by
          by_contra hdiffer
          exact hversions ⟨v, u, directive, hchain, hdiffer⟩ }
    rw [hclean] at herrors
    cases herrors
  · intro hcause
    have hreturns : ∃ r, loadComposedSpec files (files.left {} + 1) [] root {} = some r :=
      loadComposedSpec_returns (Nat.lt_succ_self _)
    obtain ⟨⟨spec, s⟩, hload⟩ := hreturns
    refine ⟨_, spec, s, hload, ?_⟩
    by_contra herrors
    have hclean : hasErrors s.diagnostics = false := Bool.eq_false_iff.mpr herrors
    obtain ⟨order, hall⟩ := loadComposedSpec_clean hload hclean tracks_nil .nil
    have hpost : files.graph.Postorder order := hall.gathers.postorder
    have hleads : ∀ q, files.graph.Leads root q → q ∈ order := fun q hq => hpost.leads hall.mem hq
    rcases hcause with ⟨q, hq, hmissing⟩ | ⟨q, hq, hcycle⟩ | ⟨q, q', hq, hq', hdiffer⟩ | hdiffer
    · exact hall.gathers.present q (hleads q hq) hmissing
    · exact hpost.acyclic (hleads q hq) hcycle
    · -- both scopes are that of the composed system
      apply hdiffer
      intro x hx y hy
      have hfirst := hall.collects.scopes q (hleads q hq) x hx
      have hsecond := hall.collects.scopes q' (hleads q' hq') y hy
      rw [hfirst] at hsecond
      exact Option.some.inj hsecond
    · obtain ⟨v, u, directive, hchain, hdiffer⟩ := hdiffer
      exact hdiffer (hall.leftmost List.not_mem_nil v List.not_mem_nil u directive hchain)

/-! ## Composition -/

/-- A cause for an error, wherever in the files it is. -/
def ShouldReport (files : FileSystem) (root : Path) : Prop :=
  Missing files root ∨ Cyclic files root ∨ ScopesConflict files root ∨ VersionsDiffer files root

/-- The members of every file a path leads to, each file once and behind those it includes. -/
def ComposedOf (files : FileSystem) (root : Path) (spec : Spec) : Prop :=
  ∃ order : List Path, order.Nodup ∧ (∀ q, q ∈ order ↔ files.graph.Leads root q) ∧
    (∀ before p after, order = before ++ p :: after → ∀ q, files.graph.Link p q → q ∈ before) ∧
    ∀ kind, spec.membersOf kind = order.flatMap (files.membersOf kind)

/-- The same directives in another order, with the same version and the same tenant scope. -/
def SourceFile.Reorders (file file' : SourceFile) : Prop :=
  file.spec.version = file'.spec.version ∧ file.spec.scope = file'.spec.scope ∧
    (file.spec.includes.map IncludeDecl.path).Perm (file'.spec.includes.map IncludeDecl.path)

/-- The same files, each with its directives in some order. -/
structure FileSystem.Reorders (files files' : FileSystem) : Prop where
  file : ∀ path, Option.Rel SourceFile.Reorders (files.file path) (files'.file path)
  includePath : files.includePath = files'.includePath

/-- Composition is exact: loading returns, it reports what it should, what it composes without errors is
    complete, and whether it reports an error does not depend on the order of the directives. -/
structure ComposesExactly (files : FileSystem) (root : Path) : Prop where
  returns : ∃ fuel r, ∀ fuel' ≥ fuel, loadComposed files fuel' root = some r
  reports : ReportsError files root ↔ ShouldReport files root
  composes : ∀ fuel spec s, loadComposed files fuel root = some (spec, s) →
    hasErrors s.diagnostics = false → ComposedOf files root spec
  any_order : ∀ files', files.Reorders files' → (ReportsError files root ↔ ReportsError files' root)

theorem FileSystem.Reorders.refl (files : FileSystem) : files.Reorders files where
  file path := by
    rcases files.file path with _ | file
    · exact .none
    · exact .some ⟨rfl, rfl, .refl _⟩
  includePath := rfl

theorem FileSystem.graph_link_iff {a b : Path} : files.graph.Link a b ↔
    ∃ path ∈ (files.graph.out a).map IncludeDecl.path, files.includePath a path = b := by
  constructor
  · rintro ⟨directive, hmem, rfl⟩
    exact ⟨directive.path, List.mem_map_of_mem hmem, rfl⟩
  · rintro ⟨path, hmem, rfl⟩
    obtain ⟨directive, hdirective, rfl⟩ := List.mem_map.mp hmem
    exact ⟨directive, hdirective, rfl⟩

section

variable {files' : FileSystem} {root : Path}

theorem FileSystem.Reorders.file_eq_none (h : files.Reorders files') (path : Path) :
    files.file path = none ↔ files'.file path = none := by
  have hfile := h.file path
  revert hfile
  rcases files.file path with _ | file <;> rcases files'.file path with _ | file' <;> intro hfile
  · exact Iff.rfl
  · cases hfile
  · cases hfile
  · simp

theorem FileSystem.Reorders.version_eq (h : files.Reorders files') (path : Path) :
    files.version path = files'.version path := by
  have hfile := h.file path
  unfold FileSystem.version
  revert hfile
  rcases files.file path with _ | file <;> rcases files'.file path with _ | file' <;> intro hfile
  · rfl
  · cases hfile
  · cases hfile
  · cases hfile with
    | some hreorders => exact hreorders.1

theorem FileSystem.Reorders.scope_eq (h : files.Reorders files') (path : Path) :
    files.scope path = files'.scope path := by
  have hfile := h.file path
  unfold FileSystem.scope
  revert hfile
  rcases files.file path with _ | file <;> rcases files'.file path with _ | file' <;> intro hfile
  · rfl
  · cases hfile
  · cases hfile
  · cases hfile with
    | some hreorders => exact hreorders.2.1

theorem FileSystem.Reorders.perm (h : files.Reorders files') (path : Path) :
    ((files.graph.out path).map IncludeDecl.path).Perm ((files'.graph.out path).map IncludeDecl.path) := by
  have hfile := h.file path
  simp only [FileSystem.graph]
  revert hfile
  rcases files.file path with _ | file <;> rcases files'.file path with _ | file' <;> intro hfile
  · exact .refl _
  · cases hfile
  · cases hfile
  · cases hfile with
    | some hreorders => exact hreorders.2.2

/-- The order of the directives plays no part in what links to what. -/
theorem FileSystem.Reorders.link_eq (h : files.Reorders files') :
    files.graph.Link = files'.graph.Link := by
  funext a b
  rw [FileSystem.graph_link_iff, FileSystem.graph_link_iff, h.includePath]
  simp only [(h.perm a).mem_iff]

theorem FileSystem.Reorders.missing_iff (h : files.Reorders files') :
    Missing files root ↔ Missing files' root := by
  unfold Missing Network.Leads
  rw [h.link_eq]
  simp only [h.file_eq_none]

theorem FileSystem.Reorders.cyclic_iff (h : files.Reorders files') :
    Cyclic files root ↔ Cyclic files' root := by
  unfold Cyclic Network.Leads Network.OnCycle
  rw [h.link_eq]

theorem FileSystem.Reorders.scopesConflict_iff (h : files.Reorders files') :
    ScopesConflict files root ↔ ScopesConflict files' root := by
  unfold ScopesConflict Network.Leads
  rw [h.link_eq]
  simp only [h.scope_eq]

theorem FileSystem.Reorders.versionsDiffer_iff (h : files.Reorders files') :
    VersionsDiffer files root ↔ VersionsDiffer files' root := by
  unfold VersionsDiffer Network.Leads
  rw [h.link_eq]
  simp only [h.version_eq]

/-- **When composition is exact**: something else is wrong with the files, or no file includes one with
    another version, or in every order of the directives some leftmost chain ends with such a file. -/
theorem composesExactly_iff : ComposesExactly files root ↔
    Missing files root ∨ Cyclic files root ∨ ScopesConflict files root ∨ ¬ VersionsDiffer files root ∨
      ∀ files', files.Reorders files' → LeftmostDiffer files' root := by
  constructor
  · intro h
    by_contra hnot
    simp only [not_or, not_not] at hnot
    obtain ⟨hpresent, hacyclic, hscopes, hdiffer, hsome⟩ := hnot
    have hreports : ReportsError files root := h.reports.mpr (.inr (.inr (.inr hdiffer)))
    apply hsome
    intro files' hreorders
    have hreports' := (h.any_order files' hreorders).mp hreports
    rw [reportsError_iff, ← hreorders.missing_iff, ← hreorders.cyclic_iff,
      ← hreorders.scopesConflict_iff] at hreports'
    tauto
  · intro hcause
    -- whether an error is reported, for any order of the directives
    have hany : ∀ files', files.Reorders files' → (ReportsError files' root ↔ ShouldReport files root) := by
      intro files' hreorders
      have hleftmost : LeftmostDiffer files' root → VersionsDiffer files root := fun hdiffer =>
        hreorders.versionsDiffer_iff.mpr hdiffer.versionsDiffer
      rw [reportsError_iff, ← hreorders.missing_iff, ← hreorders.cyclic_iff,
        ← hreorders.scopesConflict_iff, ShouldReport]
      have hagain : (∀ files', files.Reorders files' → LeftmostDiffer files' root) →
          LeftmostDiffer files' root := fun hall => hall files' hreorders
      tauto
    refine ⟨?_, hany files (.refl files), ?_, ?_⟩
    · have hreturns : ∃ r, loadComposedSpec files (files.left {} + 1) [] root {} = some r :=
        loadComposedSpec_returns (Nat.lt_succ_self _)
      obtain ⟨r, hr⟩ := hreturns
      exact ⟨_, r, fun fuel' hle => loadComposedSpec_more hle hr⟩
    · intro fuel spec s hload hclean
      obtain ⟨order, hall⟩ := loadComposedSpec_clean hload hclean tracks_nil .nil
      have hpost : files.graph.Postorder order := hall.gathers.postorder
      refine ⟨order, hpost.nodup, ?_, fun before p after heq q hlink => hpost.behind heq hlink,
        hall.collects.members⟩
      intro q
      exact ⟨hall.leads q, fun hleads => hpost.leads hall.mem hleads⟩
    · intro files' hreorders
      rw [hany files (.refl files), hany files' hreorders]

end

/-! ## A diamond -/

/-- A file with this text, if it parses without errors. -/
def SourceFile.ofText (contents : Bytes) : Option SourceFile :=
  match h : parseFile (contents.length + 1) contents with
  | none => none
  | some (spec, diagnostics) =>
    if hclean : hasErrors diagnostics = false then
      some ⟨contents, spec, diagnostics, ⟨_, h⟩, hclean⟩
    else none

/-- Two files include the same third one, which has another version than the second of them. -/
def diamond : FileSystem where
  file path :=
    if path = ascii "root" then
      SourceFile.ofText (ascii "include \"a\"; include \"b\"; system R \x7b \x7d")
    else if path = ascii "a" then
      SourceFile.ofText (ascii "include \"c\"; system A \x7b \x7d")
    else if path = ascii "b" then
      SourceFile.ofText (ascii "statespec 0.1; include \"c\"; system B \x7b \x7d")
    else if path = ascii "c" then
      SourceFile.ofText (ascii "statespec 0.2; system C \x7b \x7d")
    else none
  includePath _ path := path
  paths := [ascii "root", ascii "a", ascii "b", ascii "c"]
  mem_paths := by
    intro path hfile
    by_contra hmem
    simp only [List.mem_cons, List.not_mem_nil, or_false, not_or] at hmem
    rw [if_neg hmem.1, if_neg hmem.2.1, if_neg hmem.2.2.1, if_neg hmem.2.2.2] at hfile
    exact hfile rfl

/-- `b` has version 0.1 and includes `c`, which has version 0.2; but `c` was loaded for `a`, which has no
    version. -/
theorem diamond_not_exact : ¬ ∀ files root, ComposesExactly files root := by
  intro hexact
  have h := hexact diamond (ascii "root")
  have hroot : (diamond.graph.out (ascii "root")).map IncludeDecl.path = [ascii "a", ascii "b"] := by
    decide +kernel
  have hb : (diamond.graph.out (ascii "b")).map IncludeDecl.path = [ascii "c"] := by decide +kernel
  have hlink : diamond.graph.Link (ascii "root") (ascii "b") :=
    FileSystem.graph_link_iff.mpr ⟨ascii "b", by rw [hroot]; simp, rfl⟩
  have hlink' : diamond.graph.Link (ascii "b") (ascii "c") :=
    FileSystem.graph_link_iff.mpr ⟨ascii "c", by rw [hb]; simp, rfl⟩
  have hdiffer : ¬ Compatible (diamond.version (ascii "b")) (diamond.version (ascii "c")) := by
    intro hsame
    have hversion : diamond.version (ascii "b") = some (ascii "0.1") := by decide +kernel
    have hversion' : diamond.version (ascii "c") = some (ascii "0.2") := by decide +kernel
    have heq := hsame _ hversion _ hversion'
    revert heq
    decide
  obtain ⟨fuel, spec, s, hload, herrors⟩ :=
    h.reports.mpr (.inr (.inr (.inr ⟨_, _, hlink.leads, hlink', hdiffer⟩)))
  have hclean : (loadComposed diamond 5 (ascii "root")).map (fun r => hasErrors r.2.diagnostics) =
      some false := by decide +kernel
  obtain ⟨r, hr, hfalse⟩ := Option.map_eq_some_iff.mp hclean
  have hmore := loadComposedSpec_more (Nat.le_max_left fuel 5) hload
  have hmore' := loadComposedSpec_more (Nat.le_max_right fuel 5) hr
  rw [hmore] at hmore'
  cases hmore'
  rw [herrors] at hfalse
  cases hfalse

end StateSpec.Compiler
