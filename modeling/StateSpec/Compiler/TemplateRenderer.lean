/-
  THE TEMPLATE RENDERER — `TemplateRenderer::render` of `template_renderer.cpp`, which fills in the templates
  of generated files.

  1. **Program** — `renderFrom` is the loop, and `render` also checks that every value has been used.
  2. **Templates** — literals and placeholders.  What these may not contain is part of a `Template`, so
     each text is that of exactly one (`exists_spelled`, `spelled_injective`).
  3. **Rendering** — the values stand where the placeholders were and are not looked at again, or the first
     thing that is wrong is reported (`render_exact`).
-/
import StateSpec.Lib.Delimiter
import StateSpec.Compiler.OpenApi

namespace StateSpec.Compiler.TemplateRenderer

open Delimiter

/-! ## The program -/

/-- `TemplateRenderer::Values`. -/
abbrev Values := OrderedMap Bytes Bytes

def opening : Bytes := ascii "\x7b\x7b"

def closing : Bytes := ascii "\x7d\x7d"

def unclosedMessage : String := "template placeholder opened without closing delimiter"

def emptyNameMessage : String := "template placeholder name must not be empty"

def missingMessage (key : Bytes) : String :=
  "template placeholder '" ++ text key ++ "' has no render value"

def unusedMessage (key : Bytes) : String :=
  "render value '" ++ text key ++ "' was not used by template"

theorem opening_ne_nil : opening ≠ [] := by decide

theorem closing_ne_nil : closing ≠ [] := by decide

def placeholderValue (values : Values) (key : Bytes) : Except String Bytes :=
  if key = [] then .error emptyNameMessage
  else
    match values[key]? with
    | none => .error (missingMessage key)
    | some value => .ok value

/-- The loop of `render` on what is behind the cursor: what it writes, and the names it uses. -/
def renderFrom (values : Values) (templateText : Bytes) : Except String (Bytes × List Bytes) :=
  match _hopen : cut opening templateText with
  | none => .ok (templateText, [])
  | some (front, behind) =>
    match _hclose : cut closing behind with
    | none => .error unclosedMessage
    | some (name, rest) => do
      let value ← placeholderValue values (trimAsciiCopy name)
      let (output, used) ← renderFrom values rest
      return (front ++ (value ++ output), trimAsciiCopy name :: used)
termination_by templateText.length
decreasing_by exact (cut_length closing_ne_nil _hclose).trans (cut_length opening_ne_nil _hopen)

def render (templateText : Bytes) (values : Values) : Except String Bytes := do
  let (output, used) ← renderFrom values templateText
  match values.keys.find? fun key => key ∉ used with
  | some key => .error (unusedMessage key)
  | none => .ok output

/-! ## Templates -/

inductive Template where
  | plain (literal : Bytes) (h : ¬ opening <:+: literal)
  | unclosed (literal behind : Bytes) (h : Clear opening literal) (hbehind : ¬ closing <:+: behind)
  | placeholder (literal name : Bytes) (rest : Template) (h : Clear opening literal)
      (hname : Clear closing name)

namespace Template

/-- The text of a template. -/
def spelled : Template → Bytes
  | plain literal _ => literal
  | unclosed literal behind _ _ => literal ++ (opening ++ behind)
  | placeholder literal name rest _ _ => literal ++ (opening ++ (name ++ (closing ++ rest.spelled)))

def keys : Template → List Bytes
  | plain .. | unclosed .. => []
  | placeholder _ name rest _ _ => trimAsciiCopy name :: rest.keys

/-- The text with the values in place of the placeholders. -/
def filled (values : Values) : Template → Bytes
  | plain literal _ => literal
  | unclosed literal .. => literal
  | placeholder literal name rest _ _ =>
    literal ++ (values[trimAsciiCopy name]?.getD [] ++ rest.filled values)

def keyFaults (values : Values) (key : Bytes) : List String :=
  if key = [] then [emptyNameMessage] else if key ∈ values then [] else [missingMessage key]

/-- What is wrong with the placeholders, in order. -/
def faults (values : Values) : Template → List String
  | plain .. => []
  | unclosed .. => [unclosedMessage]
  | placeholder _ name rest _ _ => keyFaults values (trimAsciiCopy name) ++ rest.faults values

/-- The values that no placeholder asks for, in the order of their names. -/
def unusedFaults (values : Values) (t : Template) : List String :=
  (values.keys.filter fun key => key ∉ t.keys).map unusedMessage

theorem exists_spelled (templateText : Bytes) : ∃ t : Template, t.spelled = templateText := by
  induction h : templateText.length using Nat.strong_induction_on generalizing templateText with
  | _ n ih =>
    cases hopen : cut opening templateText with
    | none => exact ⟨.plain templateText ((cut_eq_none opening_ne_nil).mp hopen), rfl⟩
    | some p =>
      obtain ⟨rfl, hclear⟩ := cut_sound opening_ne_nil hopen
      cases hclose : cut closing p.2 with
      | none => exact ⟨.unclosed p.1 p.2 hclear ((cut_eq_none closing_ne_nil).mp hclose), rfl⟩
      | some q =>
        have hlt := (cut_length closing_ne_nil hclose).trans (cut_length opening_ne_nil hopen)
        obtain ⟨t, ht⟩ := ih q.2.length (h ▸ hlt) q.2 rfl
        obtain ⟨hbehind, hname⟩ := cut_sound closing_ne_nil hclose
        refine ⟨.placeholder p.1 q.1 t hclear hname, ?_⟩
        rw [spelled, ht, hbehind]

theorem cut_spelled (t : Template) :
    cut opening t.spelled =
      match t with
      | plain .. => none
      | unclosed literal behind _ _ => some (literal, behind)
      | placeholder literal name rest _ _ => some (literal, name ++ (closing ++ rest.spelled)) := by
  cases t with
  | plain literal h => exact (cut_eq_none opening_ne_nil).mpr h
  | unclosed literal behind h _ => exact cut_complete opening_ne_nil h
  | placeholder literal name rest h _ => exact cut_complete opening_ne_nil h

/-- Induction on a template: both texts are cut at the same places. -/
theorem spelled_injective {t t' : Template} (h : t.spelled = t'.spelled) : t = t' := by
  have hopen := congrArg (cut opening) h
  rw [cut_spelled, cut_spelled] at hopen
  induction t generalizing t' with
  | plain literal hliteral =>
    cases t' with
    | plain literal' _ => cases h; rfl
    | unclosed literal' behind' _ _ => cases hopen
    | placeholder literal' name' rest' _ _ => cases hopen
  | unclosed literal behind _ hbehind =>
    cases t' with
    | plain literal' _ => cases hopen
    | unclosed literal' behind' _ _ => cases hopen; rfl
    | placeholder literal' name' rest' _ hname' =>
      -- what is behind the opening would be closed in one template and not in the other
      cases hopen
      cases ((cut_eq_none closing_ne_nil).mpr hbehind).symm.trans (cut_complete closing_ne_nil hname')
  | placeholder literal name rest _ hname ih =>
    cases t' with
    | plain literal' _ => cases hopen
    | unclosed literal' behind' _ hbehind' =>
      -- the same the other way round
      cases hopen
      cases ((cut_eq_none closing_ne_nil).mpr hbehind').symm.trans (cut_complete closing_ne_nil hname)
    | placeholder literal' name' rest' _ hname' =>
      obtain ⟨rfl, hrest⟩ := Prod.mk.inj (Option.some.inj hopen)
      have hclose := congrArg (cut closing) hrest
      rw [cut_complete closing_ne_nil hname, cut_complete closing_ne_nil hname'] at hclose
      obtain ⟨rfl, hspelled⟩ := Prod.mk.inj (Option.some.inj hclose)
      obtain rfl := ih hspelled (by rw [← cut_spelled, hspelled, cut_spelled])
      rfl

end Template

/-! ## Rendering -/

theorem placeholderValue_eq (values : Values) (key : Bytes) :
    placeholderValue values key =
      match Template.keyFaults values key with
      | [] => .ok (values[key]?.getD [])
      | message :: _ => .error message := by
  unfold placeholderValue Template.keyFaults
  by_cases hkey : key = []
  · rw [if_pos hkey, if_pos hkey]
  · rw [if_neg hkey, if_neg hkey]
    by_cases hmem : key ∈ values
    · rw [if_pos hmem, Std.ExtTreeMap.getElem?_eq_some_getElem hmem]
      rfl
    · rw [if_neg hmem, Std.ExtTreeMap.getElem?_eq_none hmem]

/-- One placeholder, and the rest of the text. -/
theorem renderFrom_placeholder {values : Values} {templateText front behind name rest : Bytes}
    (hopen : cut opening templateText = some (front, behind))
    (hclose : cut closing behind = some (name, rest)) :
    renderFrom values templateText = do
      let value ← placeholderValue values (trimAsciiCopy name)
      let (output, used) ← renderFrom values rest
      return (front ++ (value ++ output), trimAsciiCopy name :: used) := by
  rw [renderFrom]
  split
  case h_1 hnone => cases hnone.symm.trans hopen
  case h_2 hsome =>
    cases hsome.symm.trans hopen
    split
    case h_1 hnone => cases hnone.symm.trans hclose
    case h_2 hsome' =>
      cases hsome'.symm.trans hclose
      rfl

/-- Induction on the template. -/
theorem renderFrom_spelled (values : Values) (t : Template) :
    renderFrom values t.spelled =
      match t.faults values with
      | [] => .ok (t.filled values, t.keys)
      | message :: _ => .error message := by
  induction t with
  | plain literal h =>
    have hopen := (cut_eq_none opening_ne_nil).mpr h
    rw [Template.spelled, renderFrom]
    split
    case h_1 => rfl
    case h_2 hsome => cases hsome.symm.trans hopen
  | unclosed literal behind h hbehind =>
    have hopen : cut opening (literal ++ (opening ++ behind)) = _ := cut_complete opening_ne_nil h
    have hclose := (cut_eq_none closing_ne_nil).mpr hbehind
    rw [Template.spelled, renderFrom]
    split
    case h_1 hnone => cases hnone.symm.trans hopen
    case h_2 hsome =>
      cases hsome.symm.trans hopen
      split
      case h_1 => rfl
      case h_2 hsome' => cases hsome'.symm.trans hclose
  | placeholder literal name rest h hname ih =>
    rw [Template.spelled, renderFrom_placeholder (cut_complete opening_ne_nil h)
      (cut_complete closing_ne_nil hname), placeholderValue_eq, ih, Template.faults]
    cases Template.keyFaults values (trimAsciiCopy name) with
    | cons message faults => rfl
    | nil =>
      cases hfaults : rest.faults values with
      | cons message faults => rfl
      | nil => rfl

/-- **Rendering is exact.** -/
theorem render_exact (templateText : Bytes) (values : Values) :
    ∃! t : Template, t.spelled = templateText ∧
      render templateText values =
        match t.faults values ++ t.unusedFaults values with
        | [] => .ok (t.filled values)
        | message :: _ => .error message := by
  obtain ⟨t, rfl⟩ := Template.exists_spelled templateText
  refine ⟨t, ⟨rfl, ?_⟩, fun t' h => Template.spelled_injective h.1⟩
  rw [render, renderFrom_spelled]
  cases t.faults values with
  | cons message faults => rfl
  | nil =>
    -- behind the loop the first value is reported that it has not used
    show (match values.keys.find? fun key => key ∉ t.keys with
      | some key => Except.error (unusedMessage key)
      | none => Except.ok (t.filled values)) = _
    rw [← List.head?_filter, List.nil_append, Template.unusedFaults]
    cases values.keys.filter fun key => key ∉ t.keys with
    | nil => rfl
    | cons key keys => rfl

end StateSpec.Compiler.TemplateRenderer
