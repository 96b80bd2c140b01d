import SkPqc.Model.Python
import SkPqc.Runs.Outcomes

/-!
# Which exceptions a call lets out

`Contained classes x` says that `x` returns or raises one of the classes (or a subclass). A `try` whose
handler raises again contains what the bare call contains (`Ends.renamed`); everything is contained in
`Exception`.
-/

namespace SkPqc

open Runs

/-- `isinstance(exc, classes)` -/
def Exc.In (classes : List ExcClass) (e : Exc) : Prop := classes.any e.isA = true

theorem Exc.in_cons_self (classes : List ExcClass) (e : Exc) : e.In (e.cls :: classes) := by
  rw [Exc.In, List.any_cons, e.isA_self, Bool.true_or]

theorem Exc.In.cons {classes : List ExcClass} {e : Exc} (h : e.In classes) (cls : ExcClass) :
    e.In (cls :: classes) := by
  rw [Exc.In, List.any_cons, show classes.any e.isA = true from h, Bool.or_true]

/-- The call returns, or raises one of the classes. -/
def Contained (classes : List ExcClass) {α : Type} (x : Py α) : Prop := Ends (fun _ => True) (Exc.In classes) x

variable {α β : Type} {post : α → Prop} {err : Exc → Prop} {classes : List ExcClass} {cls : ExcClass}

theorem ends_raise {msg : List Part} (h : err ⟨cls, msg⟩) : Ends post err (raise cls msg : Py α) := .error h

theorem ends_ofOption {o : Option α} (hsome : ∀ a, o = some a → post a) (hnone : err ⟨cls, [.lib]⟩) :
    Ends post err (ofOption cls o) := by
  cases o with
  | some a => exact .ok (hsome a rfl)
  | none => exact .error hnone

/-- A check `if c: raise …` before the rest of a call. -/
theorem Ends.guard {c : Prop} [Decidable c] {msg : List Part} {f : PUnit → Py α} {x : Py α}
    (hraise : err ⟨cls, msg⟩) (hx : ¬c → Ends post err x) :
    Ends post err (if c then (raise cls msg : Py PUnit) >>= f else x) :=
  Ends.ite (fun _ => .error hraise) hx

/-- Where the handler raises again, nothing but its class comes out. -/
theorem Ends.renamed {x : Py α} {msg : Exc → List Part} (hx : Ends post (Exc.In classes) x)
    (hcls : ∀ m, err ⟨cls, m⟩) : Ends post err (tryExcept classes x fun exc => raise cls (msg exc)) := by
  cases hx with
  | ok h => exact .ok h
  | @error e h =>
    simp only [tryExcept]
    rw [if_pos (show classes.any e.isA = true from h)]
    exact ends_raise (hcls _)

/-- A call that never raises a class. -/
theorem ends_ne {x : Py α} (h : ∀ msg, x ≠ .error ⟨cls, msg⟩) : Ends (fun _ => True) (fun e => e.cls ≠ cls) x := by
  cases x with
  | ok a => exact .ok trivial
  | error e =>
    refine .error ?_
    rintro rfl
    exact h e.msg rfl

theorem contained_ok (a : α) : Contained classes (.ok a : Py α) := .ok trivial

theorem contained_raise {msg : List Part} (h : Exc.In classes ⟨cls, msg⟩) : Contained classes (raise cls msg : Py α) :=
  .error h

theorem contained_exception (x : Py α) : Contained [.exception] x := by
  cases x with
  | ok a => exact contained_ok a
  | error e =>
    refine .error ?_
    rw [Exc.In, List.any_cons, e.isA_exception, Bool.true_or]

theorem Contained.bind {x : Py α} {f : α → Py β} (hx : Contained classes x) (hf : ∀ a, Contained classes (f a)) :
    Contained classes (x >>= f) :=
  Ends.bind hx fun a _ => hf a

theorem contained_renamed {x : Py α} {msg : Exc → List Part} {inner : List ExcClass} (hx : Contained inner x)
    (hcls : ∀ m, Exc.In classes ⟨cls, m⟩) : Contained classes (tryExcept inner x fun exc => raise cls (msg exc)) :=
  Ends.renamed hx hcls

theorem Contained.mono {classes' : List ExcClass} {x : Py α} (h : Contained classes x)
    (hsub : ∀ e : Exc, e.In classes → e.In classes') : Contained classes' x :=
  Ends.mono h (fun _ h => h) hsub

/-- In a contained sequence the first call returns, unless what it raises is contained. -/
theorem Contained.of_bind {x : Py α} {f : α → Py β} (h : Contained classes (x >>= f)) (hx : Ends post err x)
    (herr : ∀ e, err e → ¬e.In classes) : ∃ a, x = .ok a ∧ post a ∧ Contained classes (f a) := by
  cases hx with
  | ok ha => exact ⟨_, rfl, ha, h⟩
  | error he => exact absurd h.of_error (herr _ he)

end SkPqc
