import Lisplet.Proofs.Courses
import Mathlib.Data.List.Forall2

/-!
How functions are written. The variants of a function are read off its operands exactly as they are
written there, and reading them touches nothing.
-/

namespace Lisplet

/-- A variant in brackets of its own, with its parameters in brackets of either kind. -/
inductive Variant.Written : Form → Variant → Prop
  | vector (params : List String) (body : List Form) (l : Location) :
      Written (.call (.vector (params.map .symbol) :: body) l) ⟨params, body⟩
  | call (params : List String) (body : List Form) (l l' : Location) :
      Written (.call (.call (params.map .symbol) l' :: body) l) ⟨params, body⟩

/-- One variant inline, or one or more in brackets. -/
inductive Variant.AllWritten : List Form → List Variant → Prop
  | inline (params : List String) (body : List Form) :
      AllWritten (.vector (params.map .symbol) :: body) [⟨params, body⟩]
  | several {form : Form} {forms : List Form} {variants : List Variant}
      (h : List.Forall₂ Written (form :: forms) variants) : AllWritten (form :: forms) variants

namespace Eval

theorem paramNames_symbols (special : SpecialForm) (params : List String) :
    paramNames special (params.map .symbol) = pure params := by
  induction params with
  | nil => rfl
  | cons name params ih =>
    rw [List.map_cons, paramNames, ih]
    rfl

theorem readVariant_of_written (special : SpecialForm) {form : Form} {variant : Variant}
    (h : variant.Written form) : readVariant special form = pure variant := by
  rcases h with ⟨params, body, l⟩ | ⟨params, body, l, l'⟩
  · rw [readVariant, paramNames_symbols]
    rfl
  · rw [readVariant, paramNames_symbols]
    rfl

theorem readVariants_of_written (special : SpecialForm) {forms : List Form}
    {variants : List Variant} (h : List.Forall₂ Variant.Written forms variants) :
    readVariants special forms = pure variants := by
  induction h with
  | nil => rfl
  | cons hv _ ih =>
    rw [readVariants, readVariant_of_written special hv, ih]
    rfl

theorem functionVariants_of_written (special : SpecialForm) {forms : List Form}
    {variants : List Variant} (h : Variant.AllWritten forms variants) :
    functionVariants special forms = pure variants := by
  rcases h with ⟨params, body⟩ | h
  · rw [functionVariants, paramNames_symbols]
    rfl
  · have hread := readVariants_of_written special h
    cases h with
    | cons hv _ => cases hv <;> exact hread

variable {special : SpecialForm} {s t : Session}

theorem symbols_of_paramNames {forms : List Form} {params : List String}
    (h : paramNames special forms s = .ok params t) : forms = params.map .symbol := by
  induction forms generalizing params t with
  | nil =>
    cases h
    rfl
  | cons form forms ih =>
    rcases form with _ | name | _ | _ | _ | _
    case symbol =>
      obtain ⟨names, u, hnames, hend⟩ := Outcome.bind_eq_ok h
      cases hend
      rw [ih hnames, List.map_cons]
    all_goals cases h

theorem written_of_readVariant {form : Form} {variant : Variant}
    (h : readVariant special form s = .ok variant t) : variant.Written form := by
  rcases form with _ | _ | ⟨_ | ⟨first, body⟩, l⟩ | _ | _ | _
  case call.cons =>
    rcases first with _ | _ | ⟨params, l'⟩ | _ | params | _
    case call =>
      obtain ⟨names, u, hnames, hend⟩ := Outcome.bind_eq_ok h
      cases hend
      rw [symbols_of_paramNames hnames]
      exact .call names body l l'
    case vector =>
      obtain ⟨names, u, hnames, hend⟩ := Outcome.bind_eq_ok h
      cases hend
      rw [symbols_of_paramNames hnames]
      exact .vector names body l
    all_goals cases h
  all_goals cases h

theorem written_of_readVariants {forms : List Form} {variants : List Variant}
    (h : readVariants special forms s = .ok variants t) :
    List.Forall₂ Variant.Written forms variants := by
  induction forms generalizing variants s t with
  | nil =>
    cases h
    exact .nil
  | cons form forms ih =>
    obtain ⟨variant, u, hvariant, hrest⟩ := Outcome.bind_eq_ok h
    obtain ⟨more, u', hmore, hend⟩ := Outcome.bind_eq_ok hrest
    cases hend
    exact .cons (written_of_readVariant hvariant) (ih hmore)

theorem written_of_functionVariants {forms : List Form} {variants : List Variant}
    (h : functionVariants special forms s = .ok variants t) :
    Variant.AllWritten forms variants := by
  rcases forms with _ | ⟨first, body⟩
  · cases h
  · rcases first with _ | _ | _ | _ | params | _
    case vector =>
      obtain ⟨names, u, hnames, hend⟩ := Outcome.bind_eq_ok h
      cases hend
      rw [symbols_of_paramNames hnames]
      exact .inline names body
    all_goals exact .several (written_of_readVariants h)

end Eval

end Lisplet
