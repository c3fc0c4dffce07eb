import Mathlib.Data.List.Nodup
import Patchbay.Program.Script
/-!
# Scopes

Which names a statement uses without declaring them (`Stmt.free`), and which it declares where it
stands (`Stmt.declared`). A name is declared from its statement on, to the end of the braces around
it: the parameters of a function and the variables of a loop belong to their bodies, and what a body
declares belongs to it alone.

Statements are closed under names if each of them uses only these and what earlier statements
declare (`closed_iff`).
-/

namespace Patchbay.Script

variable {α : Type}

/-! ## Names -/

mutual

/-- The names in an expression that are looked up. -/
@[simp]
def Expr.names : Expr α → List String
  | .name x => [x]
  | .number _ | .text _ | .bool _ => []
  | .member e _ | .negated e | .paren e => e.names
  | .item e e' | .binary _ e e' => e.names ++ e'.names
  | .call e arguments => e.names ++ namesOf arguments
  | .construct type arguments => type :: namesOf arguments
  | .list items => namesOf items
  | .record fields => namesOfFields fields
  | .bundle names => names

@[simp]
def namesOf : List (Expr α) → List String
  | [] => []
  | e :: rest => e.names ++ namesOf rest

@[simp]
def namesOfFields : List (String × Expr α) → List String
  | [] => []
  | (_, e) :: rest => e.names ++ namesOfFields rest

end

/-- The names that a statement declares where it stands. -/
@[simp]
def Stmt.declared : Stmt α → List String
  | .const x _ => [x]
  | .variables bindings => bindings.map (·.1)
  | .function x _ _ => [x]
  | .comment _ | .assign .. | .run _ | .result _ | .skip | .forItems .. | .forKeys .. | .forCount ..
  | .guard .. | .cases .. | .listen .. | .offer _ => []

def declaredIn (l : List (Stmt α)) : List String := l.flatMap Stmt.declared

mutual

/-- The names that a statement uses and does not declare itself. The value of a variable is found
without the variable, and so are those that are declared together with it. -/
@[simp]
def Stmt.free : Stmt α → List String
  | .comment _ | .skip => []
  | .const _ e | .run e | .result e => e.names
  | .variables bindings => namesOfFields bindings
  | .assign _ target value => target.names ++ value.names
  | .function x parameters body => (freeIn body).filter (· ∉ x :: parameters)
  | .forItems names source _ body => source.names ++ (freeIn body).filter (· ∉ names)
  | .forKeys x source body => source.names ++ (freeIn body).filter (· ≠ x)
  | .forCount x start condition _ _ body =>
    start.names ++ (condition.names ++ freeIn body).filter (· ≠ x)
  | .guard condition body => condition.names ++ body.free
  | .cases first body rest last => first.names ++ freeIn body ++ freeInCases rest ++ freeIn last
  | .listen _ parameter body => "window" :: (freeIn body).filter (· ≠ parameter)
  | .offer names => names

/-- The names that statements use before one of them declares them. -/
@[simp]
def freeIn : List (Stmt α) → List String
  | [] => []
  | s :: rest => s.free ++ (freeIn rest).filter (· ∉ s.declared)

@[simp]
def freeInCases : List (Expr α × List (Stmt α)) → List String
  | [] => []
  | (condition, body) :: rest => condition.names ++ freeIn body ++ freeInCases rest

end

/-! ## Written expressions -/

section

variable (e e' : Expr α) (f : String) (arguments : List (Expr α))

@[simp]
theorem Expr.names_send : (e.send f arguments).names = e.names ++ namesOf arguments := rfl

@[simp]
theorem Expr.names_apply : (Expr.apply f arguments).names = f :: namesOf arguments := rfl

@[simp]
theorem Expr.names_times : (e.times e').names = e.names ++ e'.names := rfl

@[simp]
theorem Expr.names_plus : (e.plus e').names = e.names ++ e'.names := rfl

@[simp]
theorem Expr.names_minus : (e.minus e').names = e.names ++ e'.names := rfl

@[simp]
theorem Expr.names_lessThan : (e.lessThan e').names = e.names ++ e'.names := rfl

@[simp]
theorem Stmt.free_set : (Stmt.set e e').free = e.names ++ e'.names := rfl

@[simp]
theorem Stmt.free_setValue : (Stmt.setValue e e').free = e.names ++ e'.names := rfl

@[simp]
theorem Stmt.declared_set : (Stmt.set e e').declared = [] := rfl

@[simp]
theorem Stmt.declared_setValue : (Stmt.setValue e e').declared = [] := rfl

end

/-! ## Sequences -/

theorem declaredIn_append (l l' : List (Stmt α)) :
    declaredIn (l ++ l') = declaredIn l ++ declaredIn l' := List.flatMap_append

theorem mem_freeIn_append {x : String} {l l' : List (Stmt α)} :
    x ∈ freeIn (l ++ l') ↔ x ∈ freeIn l ∨ x ∈ freeIn l' ∧ x ∉ declaredIn l := by
  induction l with
  | nil => simp [freeIn, declaredIn]
  | cons s l ih =>
    simp only [List.cons_append, freeIn, declaredIn, List.flatMap_cons, List.mem_append,
      List.mem_filter, decide_eq_true_eq, ih]
    simp only [declaredIn] at *
    tauto

/-- Names under which all statements are closed, each with what the statements before it declare. -/
theorem freeIn_subset_iff {known : List String} {l : List (Stmt α)} :
    freeIn l ⊆ known ↔ ∀ before s after, l = before ++ s :: after →
      ∀ x ∈ s.free, x ∈ known ∨ x ∈ declaredIn before := by
  constructor
  · rintro h before s after rfl x hx
    by_cases hbefore : x ∈ declaredIn before
    · exact .inr hbefore
    · exact .inl (h (mem_freeIn_append.mpr (.inr ⟨List.mem_append_left _ hx, hbefore⟩)))
  · intro h
    induction l generalizing known with
    | nil => exact List.nil_subset _
    | cons s l ih =>
      refine List.append_subset.mpr ⟨fun x hx => ?_, fun x hx => ?_⟩
      · exact (h [] s l rfl x hx).resolve_right List.not_mem_nil
      · obtain ⟨hx, hnot⟩ := List.mem_filter.mp hx
        have hnot : x ∉ s.declared := of_decide_eq_true hnot
        have hrest : freeIn l ⊆ known ++ s.declared := ih fun before t after heq y hy => by
          have := h (s :: before) t after (heq ▸ rfl) y hy
          simp only [declaredIn, List.flatMap_cons, List.mem_append] at this ⊢
          tauto
        exact (List.mem_append.mp (hrest hx)).resolve_right hnot

section

variable {known : List String}

theorem freeIn_append_subset {l l' : List (Stmt α)} (h : freeIn l ⊆ known)
    (h' : freeIn l' ⊆ known ++ declaredIn l) : freeIn (l ++ l') ⊆ known := fun _ hx =>
  (mem_freeIn_append.mp hx).elim (h ·) fun ⟨hx, hnot⟩ =>
    (List.mem_append.mp (h' hx)).resolve_right hnot

/-- Statements that need nothing of each other. -/
theorem freeIn_subset {l : List (Stmt α)} (h : ∀ s ∈ l, s.free ⊆ known) : freeIn l ⊆ known :=
  freeIn_subset_iff.mpr fun before s after heq _ hx => .inl (h s (heq ▸ by simp) hx)

theorem freeIn_flatten_subset {l : Paragraphs α} (h : ∀ p ∈ l, freeIn p ⊆ known) :
    freeIn l.flatten ⊆ known := by
  induction l with
  | nil => exact List.nil_subset _
  | cons p l ih =>
    exact freeIn_append_subset (h p List.mem_cons_self)
      (List.subset_append_of_subset_left _ (ih fun p hp => h p (List.mem_cons_of_mem _ hp)))

end

end Patchbay.Script
