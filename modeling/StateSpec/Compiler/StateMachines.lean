/-
  STATE MACHINES — what `validate_state_machine` lets through: the machines that are sound.

  The pass collects the states that call themselves terminal, those of the terminal list and those that have a
  `garbage_collection` block in three sets, and compares the sets with one another.  Where it finds nothing the
  three are one set (`sound_of_clean`), and since no transition begins in the third, no path does.
-/
import StateSpec.Compiler.Validator
import Mathlib.Data.List.Dedup
import Mathlib.Logic.Relation

namespace StateSpec.Compiler

/-- One step of a machine, from the name of a state to the name of a state. -/
def Transits (stateMachine : StateMachineDecl) (source target : Bytes) : Prop :=
  ∃ transition ∈ stateMachine.transitions, transition.source = source ∧ transition.target = target

/-- A machine in which the names mean what they should. -/
structure Sound (stateMachine : StateMachineDecl) : Prop where
  distinct : (stateMachine.states.map StateDecl.name).Nodup
  initial : ∃ initial, stateMachine.initialState = some initial ∧
    initial ∈ stateMachine.states.map StateDecl.name
  declared : ∀ transition ∈ stateMachine.transitions,
    transition.source ∈ stateMachine.states.map StateDecl.name ∧
      transition.target ∈ stateMachine.states.map StateDecl.name
  listed : ∀ name, name ∈ stateMachine.terminalStates ↔
    ∃ state ∈ stateMachine.states, state.terminal = true ∧ state.name = name
  collected : ∀ state ∈ stateMachine.states,
    state.terminal = true ↔ state.garbageCollection.isSome = true
  final : ∀ state ∈ stateMachine.states, state.terminal = true →
    ∀ target, ¬ Relation.TransGen (Transits stateMachine) state.name target

/-- `garbage_collection` blocks as they should be: one a state, with a duration and a mode. -/
def WellFormedCollections (stateMachine : StateMachineDecl) : Prop :=
  ∀ state ∈ stateMachine.states, state.duplicateGarbageCollectionRange = none ∧
    ∀ policy, state.garbageCollection = some policy →
      (∃ after, policy.after = some after ∧ isDurationLiteral after = true) ∧
      ∃ mode, policy.mode = some mode ∧ mode ∈ [ascii "delete", ascii "tombstone", ascii "archive"]

/-! ## The three sets -/

section Sets

variable {stateMachine : StateMachineDecl}

theorem mem_inlineTerminalStates {name : Bytes} : name ∈ inlineTerminalStates stateMachine ↔
    ∃ state ∈ stateMachine.states, state.terminal = true ∧ state.name = name := by
  simp only [inlineTerminalStates, List.mem_map, List.mem_filter, and_assoc]

theorem mem_declaredTerminalStates {name : Bytes} : name ∈ declaredTerminalStates stateMachine ↔
    name ∈ stateMachine.terminalStates ∧ name ∈ stateMachine.states.map StateDecl.name := by
  rw [declaredTerminalStates, List.mem_filter, decide_eq_true_eq]

theorem isTerminalState_iff {state : StateDecl} : isTerminalState stateMachine state = true ↔
    state.name ∈ inlineTerminalStates stateMachine ∨ state.name ∈ declaredTerminalStates stateMachine := by
  rw [isTerminalState, decide_eq_true_eq]

theorem mem_garbageCollectedStates {name : Bytes} : name ∈ garbageCollectedStates stateMachine ↔
    ∃ state ∈ stateMachine.states, state.garbageCollection.isSome = true ∧
      isTerminalState stateMachine state = true ∧ state.name = name := by
  simp only [garbageCollectedStates, List.mem_map, List.mem_filter, Bool.and_eq_true, and_assoc]

/-- Where names are apart, a name is among the terminal ones just if its state is terminal. -/
theorem name_mem_inline_iff (hnodup : (stateMachine.states.map StateDecl.name).Nodup) {state : StateDecl}
    (hstate : state ∈ stateMachine.states) :
    state.name ∈ inlineTerminalStates stateMachine ↔ state.terminal = true := by
  rw [mem_inlineTerminalStates]
  constructor
  · rintro ⟨other, hother, hterminal, hname⟩
    have hsame : other = state := List.inj_on_of_nodup_map hnodup hother hstate hname
    rwa [← hsame]
  · intro hterminal
    exact ⟨state, hstate, hterminal, rfl⟩

end Sets

/-! ## Each part of the pass -/

/-- The part about one state that has a block. -/
theorem clean_validateGarbageCollection {stateMachine : StateMachineDecl} {state : StateDecl}
    {policy : GarbageCollectionPolicyDecl} :
    Clean (validateGarbageCollection stateMachine state policy) ↔
      isTerminalState stateMachine state = true ∧
      (∃ after, policy.after = some after ∧ isDurationLiteral after = true) ∧
      ∃ mode, policy.mode = some mode ∧
        mode ∈ [ascii "delete", ascii "tombstone", ascii "archive"] := by
  obtain ⟨after, mode, range⟩ := policy
  cases after with
  | none => simp [validateGarbageCollection]
  | some after =>
    cases mode with
    | none => simp [validateGarbageCollection]
    | some mode =>
      simp only [validateGarbageCollection, clean_append, clean_reportIf, not_clean_error,
        not_clean_durationError, imp_false, not_not, Bool.not_eq_false, Option.some.injEq,
        exists_eq_left', and_assoc]

/-- The part about one transition. -/
theorem clean_validateTransition {stateMachine : StateMachineDecl} {transition : TransitionDecl} :
    Clean (validateTransition stateMachine transition) ↔
      (transition.source ∈ stateMachine.states.map StateDecl.name ∧
        transition.target ∈ stateMachine.states.map StateDecl.name) ∧
      transition.source ∉ garbageCollectedStates stateMachine := by
  simp only [validateTransition, clean_append, clean_reportIf, not_clean_unknownReferenceError,
    not_clean_error, imp_false, not_not]

/-- The part about one state. -/
theorem clean_state {stateMachine : StateMachineDecl} {state : StateDecl} {missing : Diagnostics}
    (hmissing : ¬ Clean missing) :
    Clean (reportIf (isTerminalState stateMachine state = true ∧ state.garbageCollection.isNone) missing ++
        state.garbageCollection.elim [] (validateGarbageCollection stateMachine state)) ↔
      (isTerminalState stateMachine state = true ↔ state.garbageCollection.isSome = true) ∧
      ∀ policy, state.garbageCollection = some policy →
        (∃ after, policy.after = some after ∧ isDurationLiteral after = true) ∧
        ∃ mode, policy.mode = some mode ∧
          mode ∈ [ascii "delete", ascii "tombstone", ascii "archive"] := by
  rw [clean_append, clean_reportIf]
  cases state.garbageCollection with
  | none => simp [hmissing]
  | some policy =>
    rw [Option.elim_some, clean_validateGarbageCollection]
    simp

/-! ## The pass -/

/-- **What the pass lets through.** -/
theorem clean_validateStateMachine {entity : EntityDecl} {stateMachine : StateMachineDecl}
    (hmachine : entity.stateMachine = some stateMachine) :
    Clean (validateStateMachine entity) ↔ Sound stateMachine ∧ WellFormedCollections stateMachine := by
  have hpass : Clean (validateStateMachine entity) ↔
      (stateMachine.states.map StateDecl.name).Nodup ∧
      stateMachine.states ≠ [] ∧
      (∃ initial, stateMachine.initialState = some initial ∧
        initial ∈ stateMachine.states.map StateDecl.name) ∧
      (∀ terminal ∈ stateMachine.terminalStates, terminal ∈ stateMachine.states.map StateDecl.name) ∧
      (∀ state ∈ stateMachine.states, state.name ∈ inlineTerminalStates stateMachine →
        state.name ∈ declaredTerminalStates stateMachine) ∧
      (∀ terminal ∈ declaredTerminalStates stateMachine, terminal ∈ inlineTerminalStates stateMachine) ∧
      (∀ state ∈ stateMachine.states,
        (isTerminalState stateMachine state = true ↔ state.garbageCollection.isSome = true) ∧
        ∀ policy, state.garbageCollection = some policy →
          (∃ after, policy.after = some after ∧ isDurationLiteral after = true) ∧
          ∃ mode, policy.mode = some mode ∧
            mode ∈ [ascii "delete", ascii "tombstone", ascii "archive"]) ∧
      (∀ state ∈ stateMachine.states, state.duplicateGarbageCollectionRange = none) ∧
      ∀ transition ∈ stateMachine.transitions,
        (transition.source ∈ stateMachine.states.map StateDecl.name ∧
          transition.target ∈ stateMachine.states.map StateDecl.name) ∧
        transition.source ∉ garbageCollectedStates stateMachine := by
    rw [validateStateMachine, hmachine]
    simp only [clean_append, and_assoc]
    -- one goal for each loop of the pass, in the order of the loops
    refine and_congr ?_ (and_congr ?_ (and_congr ?_ (and_congr ?_ (and_congr ?_ (and_congr ?_
      (and_congr ?_ (and_congr ?_ ?_)))))))
    · exact clean_eachSeen_names.trans (and_iff_left nofun)
    · rw [clean_reportIf]
      exact ⟨fun h hnil => not_clean_requiredError _ _ _ (h hnil), fun h hnil => absurd hnil h⟩
    · cases stateMachine.initialState with
      | none => simp
      | some initial => simp
    · simp only [clean_flatMap, clean_reportIf, not_clean_unknownReferenceError, imp_false, not_not]
    · simp only [clean_flatMap, clean_reportIf, not_clean_error, imp_false, not_and, not_not]
    · simp only [clean_flatMap, clean_reportIf, not_clean_error, imp_false, not_not, List.mem_dedup]
    · rw [clean_flatMap]
      exact forall₂_congr fun state _ => clean_state (not_clean_error _ _ _)
    · rw [clean_flatMap]
      refine forall₂_congr fun state _ => ?_
      cases state.duplicateGarbageCollectionRange with
      | none => simp
      | some range => simp
    · rw [clean_flatMap]
      exact forall₂_congr fun transition _ => clean_validateTransition.trans and_assoc
  rw [hpass]
  constructor
  · rintro ⟨hdistinct, -, hinitial, hlisted, hinline, hdeclared, hstates, hduplicates, htransitions⟩
    have hterminal : ∀ state ∈ stateMachine.states,
        isTerminalState stateMachine state = true ↔ state.terminal = true := by
      intro state hstate
      rw [isTerminalState_iff, ← name_mem_inline_iff hdistinct hstate]
      exact ⟨fun h => h.elim id (hdeclared state.name), Or.inl⟩
    have hcollected : ∀ state ∈ stateMachine.states,
        state.terminal = true ↔ state.garbageCollection.isSome = true :=
      fun state hstate => (hterminal state hstate).symm.trans (hstates state hstate).1
    refine ⟨⟨hdistinct, hinitial, fun t ht => (htransitions t ht).1, fun name => ?_, hcollected, ?_⟩,
      fun state hstate => ⟨hduplicates state hstate, (hstates state hstate).2⟩⟩
    · rw [← mem_inlineTerminalStates]
      constructor
      · intro hname
        exact hdeclared name (mem_declaredTerminalStates.mpr ⟨hname, hlisted name hname⟩)
      · intro hname
        obtain ⟨state, hstate, -, rfl⟩ := mem_inlineTerminalStates.mp hname
        exact (mem_declaredTerminalStates.mp (hinline state hstate hname)).1
    · intro state hstate hfinal target hpath
      -- the first transition of the path begins in a state that is garbage-collected
      obtain ⟨next, ⟨transition, htransition, hsource, -⟩, -⟩ := Relation.TransGen.head'_iff.mp hpath
      refine (htransitions transition htransition).2 ?_
      rw [hsource]
      exact mem_garbageCollectedStates.mpr
        ⟨state, hstate, (hcollected state hstate).mp hfinal, (hterminal state hstate).mpr hfinal, rfl⟩
  · rintro ⟨hsound, hcollections⟩
    have hinline : ∀ name, name ∈ inlineTerminalStates stateMachine ↔
        name ∈ stateMachine.terminalStates := by
      intro name
      rw [mem_inlineTerminalStates, hsound.listed]
    have hdeclared : ∀ name ∈ stateMachine.terminalStates,
        name ∈ stateMachine.states.map StateDecl.name := by
      intro name hname
      obtain ⟨state, hstate, -, rfl⟩ := (hsound.listed name).mp hname
      exact List.mem_map_of_mem hstate
    have hterminal : ∀ state ∈ stateMachine.states,
        isTerminalState stateMachine state = true ↔ state.terminal = true := by
      intro state hstate
      rw [isTerminalState_iff, ← name_mem_inline_iff hsound.distinct hstate]
      refine ⟨fun h => h.elim id fun h => ?_, Or.inl⟩
      exact (hinline state.name).mpr (mem_declaredTerminalStates.mp h).1
    refine ⟨hsound.distinct, ?_, hsound.initial, hdeclared, ?_, ?_, ?_, ?_, ?_⟩
    · obtain ⟨initial, -, hmem⟩ := hsound.initial
      intro hnil
      rw [hnil] at hmem
      cases hmem
    · intro state hstate hname
      exact mem_declaredTerminalStates.mpr
        ⟨(hinline state.name).mp hname, List.mem_map_of_mem hstate⟩
    · intro name hname
      exact (hinline name).mpr (mem_declaredTerminalStates.mp hname).1
    · intro state hstate
      exact ⟨(hterminal state hstate).trans (hsound.collected state hstate), (hcollections state hstate).2⟩
    · exact fun state hstate => (hcollections state hstate).1
    · intro transition htransition
      refine ⟨hsound.declared transition htransition, fun hsource => ?_⟩
      obtain ⟨state, hstate, -, hfinal, hname⟩ := mem_garbageCollectedStates.mp hsource
      refine hsound.final state hstate ((hterminal state hstate).mp hfinal) transition.target ?_
      exact Relation.TransGen.single ⟨transition, htransition, hname.symm, rfl⟩

/-- **The machines of an accepted system are sound, and a sound machine is let through.** -/
theorem accepted_stateMachines_sound :
    (∀ system, Accepted system → ∀ entity ∈ system.entities,
      ∃ stateMachine, entity.stateMachine = some stateMachine ∧ Sound stateMachine) ∧
    ∀ (entity : EntityDecl) (stateMachine : StateMachineDecl), entity.stateMachine = some stateMachine →
      Sound stateMachine → WellFormedCollections stateMachine → Clean (validateStateMachine entity) := by
  constructor
  · intro system haccepted entity hentity
    have hclean : Clean (validateStateMachine entity) := by
      have hall := haccepted.entities entity hentity
      rw [validateEntity, clean_append] at hall
      exact hall.2
    cases hmachine : entity.stateMachine with
    | none =>
      rw [validateStateMachine, hmachine] at hclean
      exact absurd hclean (not_clean_requiredError _ _ _)
    | some stateMachine =>
      exact ⟨stateMachine, rfl, ((clean_validateStateMachine hmachine).mp hclean).1⟩
  · intro entity stateMachine hmachine hsound hcollections
    exact (clean_validateStateMachine hmachine).mpr ⟨hsound, hcollections⟩

/-- The machine of orders. -/
theorem accepted_stateMachines_sound_orders :
    ∃ stateMachine, (orderEntity {}).stateMachine = some stateMachine ∧ Sound stateMachine :=
  accepted_stateMachines_sound.1 (orderSystem {}) (by decide +kernel) _ List.mem_cons_self

end StateSpec.Compiler
