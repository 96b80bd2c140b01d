import Mathlib.Data.List.Forall2

/-!
# How a fallible call ends

`Ends post err x` says both what `x` may return and what it may fail with. The rules follow the shape of a
call: a sequence (`Ends.bind`), a branch (`Ends.ite`), a loop over a list (`ends_mapM`), a weaker bound
(`Ends.mono`). A call that must fail has a `post` that nothing satisfies (`ends_false_iff`). `SameOr err x y`
compares a call with the same call on a machine that has an error less.
-/

namespace Runs

universe u v

variable {ε : Type u} {α β : Type v} {post post' : α → Prop} {err err' : ε → Prop}

/-- A result of the call satisfies `post`, an error of it satisfies `err`. -/
inductive Ends (post : α → Prop) (err : ε → Prop) : Except ε α → Prop where
  | ok {a : α} (h : post a) : Ends post err (.ok a)
  | error {e : ε} (h : err e) : Ends post err (.error e)

theorem Ends.of_ok {a : α} (h : Ends post err (.ok a)) : post a := by
  cases h with
  | ok h => exact h

theorem Ends.of_error {e : ε} (h : Ends post err (.error e)) : err e := by
  cases h with
  | error h => exact h

theorem Ends.mono {x : Except ε α} (h : Ends post err x) (hpost : ∀ a, post a → post' a)
    (herr : ∀ e, err e → err' e) : Ends post' err' x := by
  cases h with
  | ok h => exact .ok (hpost _ h)
  | error h => exact .error (herr _ h)

theorem Ends.bind {p : β → Prop} {x : Except ε α} {f : α → Except ε β} (hx : Ends post err x)
    (hf : ∀ a, post a → Ends p err (f a)) : Ends p err (x >>= f) := by
  cases hx with
  | ok h => exact hf _ h
  | error h => exact .error h

theorem Ends.ite {c : Prop} [Decidable c] {x y : Except ε α} (hx : c → Ends post err x)
    (hy : ¬c → Ends post err y) : Ends post err (if c then x else y) := by
  by_cases h : c
  · rw [if_pos h]
    exact hx h
  · rw [if_neg h]
    exact hy h

/-- What is known of every result of a call goes with what is known of its errors. -/
theorem Ends.with_ok {x : Except ε α} (h : Ends post err x) : Ends (fun a => x = .ok a) err x := by
  cases h with
  | ok _ => exact .ok rfl
  | error h => exact .error h

/-- One call after the other on a list. -/
theorem ends_mapM {R : α → β → Prop} {f : α → Except ε β} {l : List α} (h : ∀ a ∈ l, Ends (R a) err (f a)) :
    Ends (List.Forall₂ R l) err (l.mapM f) := by
  induction l with
  | nil => exact .ok .nil
  | cons a l ih =>
    rw [List.mapM_cons]
    refine Ends.bind (h a List.mem_cons_self) fun b hb => ?_
    refine Ends.bind (ih fun a' ha' => h a' (List.mem_cons_of_mem _ ha')) fun bs hbs => ?_
    exact .ok (.cons hb hbs)

theorem ends_false_iff {x : Except ε α} : Ends (fun _ => False) err x ↔ ∃ e, x = .error e ∧ err e := by
  constructor
  · intro h
    cases h with
    | ok h => exact absurd h not_false
    | error h => exact ⟨_, rfl, h⟩
  · rintro ⟨e, rfl, h⟩
    exact .error h

/-- The call ends as the other one does, or with an error of its own. -/
def SameOr (err : ε → Prop) (x y : Except ε α) : Prop := x = y ∨ ∃ e, x = .error e ∧ err e

theorem SameOr.refl (x : Except ε α) : SameOr err x x := .inl rfl

theorem SameOr.bind {x y : Except ε α} {f g : α → Except ε β} (h : SameOr err x y) (hf : ∀ a, SameOr err (f a) (g a)) :
    SameOr err (x >>= f) (y >>= g) := by
  rcases h with rfl | ⟨e, rfl, he⟩
  · cases x with
    | ok a => exact hf a
    | error e => exact .inl rfl
  · exact .inr ⟨e, rfl, he⟩

theorem SameOr.ite {c : Prop} [Decidable c] {x x' y y' : Except ε α} (hx : SameOr err x x') (hy : SameOr err y y') :
    SameOr err (if c then x else y) (if c then x' else y') := by
  by_cases h : c
  · rw [if_pos h, if_pos h]
    exact hx
  · rw [if_neg h, if_neg h]
    exact hy

/-- What such a call returns, the other one returns as well. -/
theorem SameOr.of_ok {x y : Except ε α} {a : α} (h : SameOr err x y) (hx : x = .ok a) : y = .ok a := by
  rcases h with rfl | ⟨e, rfl, -⟩
  · exact hx
  · cases hx

end Runs
