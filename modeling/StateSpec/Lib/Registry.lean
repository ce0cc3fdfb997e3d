/-
  REGISTRIES — definitions that are registered under names and looked up.

  A registration always succeeds and replaces what was registered under the name; the answer says
  whether there was nothing before.  `runs_register` and `runs_inspect` are for registries that are
  kept in a collection of documents.
-/
import StateSpec.Lib.Refinement
import StateSpec.Lib.Tables

namespace StateSpec.Registry

variable {Name Definition : Type}

abbrev State (Name Definition : Type) := Name → Option Definition

inductive Request (Name Definition : Type) where
  | register (name : Name) (definition : Definition)
  | inspect (name : Name)

inductive Answer (Definition : Type) where
  | registered (definition : Definition) (created : Bool)
  | found (definition : Option Definition)

/-- The registry as an object. -/
inductive object [DecidableEq Name] :
    Object (State Name Definition) (Request Name Definition) (Answer Definition) where
  | register {s : State Name Definition} (name : Name) (definition : Definition) :
      object s (.register name definition) (.registered definition (s name).isNone)
        (Function.update s name (some definition))
  | inspect {s : State Name Definition} (name : Name) : object s (.inspect name) (.found (s name)) s

/-! ## Registries in documents -/

open Program

variable {C D ε ρ : Type} [DecidableEq C] [DecidableEq Name] {decode : D → Except ε Definition}
  {d d' : Documents C Name D} {c : C} {s : State Name Definition}

/-- A definition is looked up. -/
theorem runs_inspect (h : Holds decode (fun _ definition => definition) d c s) {name : Name}
    {next : Option D → Program C Name D ε (Option Definition)} {r : Option Definition}
    (hruns : (read c name >>= next).Runs d r d') (hnone : next none = pure none)
    (hsome : ∀ document, next (some document) = ofExcept ((decode document).map some)) :
    d' = d ∧ r = s name := by
  obtain ⟨rfl, rfl⟩ := runs_decoded hruns hnone hsome
  rw [h name, Option.map_id']
  exact ⟨rfl, rfl⟩

/-- A definition is registered. -/
theorem runs_register (h : Holds decode (fun _ definition => definition) d c s) {name : Name}
    {next : Option D → Program C Name D ε (Option Definition)} {document : D} {definition : Definition}
    {f : Option Definition → ρ} {r : ρ}
    (hruns : ((read c name >>= next) >>= fun existing =>
      write c name document >>= fun _ => pure (f existing)).Runs d r d') (hnone : next none = pure none)
    (hsome : ∀ document, next (some document) = ofExcept ((decode document).map some))
    (hdocument : decode document = .ok definition) :
    d' = d.set c name (some document) ∧ r = f (s name) ∧
      Holds decode (fun _ definition => definition) d' c (Function.update s name (some definition)) := by
  obtain ⟨existing, mid, hinspect, hrest⟩ := runs_do.mp hruns
  obtain ⟨rfl, rfl⟩ := runs_inspect h hinspect hnone hsome
  obtain ⟨_, mid', hwrite, hlast⟩ := runs_do.mp hrest
  obtain ⟨rfl, rfl⟩ := runs_pure.mp hlast
  rw [runs_write.mp hwrite]
  exact ⟨rfl, rfl, h.put name hdocument⟩

end StateSpec.Registry
