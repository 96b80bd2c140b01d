import Mathlib.Data.List.Basic
import Mathlib.Logic.Function.Basic

/-!
# Runs of stateful objects

An object is a state and a step that takes a call to its reply and the state after it. `after` is the state
that a list of calls leaves, `history` the calls with their replies. `after_inv` is the induction over runs.

Several objects take their calls interleaved, each step changing one of them (`stepAt`). They are
independent: what an object does in an interleaving is what it does on its own calls alone
(`after_stepAt` for its state, `historyOf_stepAt` for its replies). So a fact about all interleavings is a
fact about the runs of one object.
-/

namespace Runs

variable {ι σ κ ρ : Type*} (step : σ → κ → ρ × σ)

/-- The state after a list of calls. -/
def after (s : σ) (calls : List κ) : σ := calls.foldl (fun s call => (step s call).2) s

/-- The calls, each with its reply. -/
def history : σ → List κ → List (κ × ρ)
  | _, [] => []
  | s, call :: calls => (call, (step s call).1) :: history (step s call).2 calls

@[simp] theorem after_nil (s : σ) : after step s [] = s := rfl

@[simp] theorem after_cons (s : σ) (call : κ) (calls : List κ) :
    after step s (call :: calls) = after step (step s call).2 calls := rfl

theorem after_append (s : σ) (calls calls' : List κ) :
    after step s (calls ++ calls') = after step (after step s calls) calls' := by
  rw [after, List.foldl_append, ← after, ← after]

theorem after_concat (s : σ) (calls : List κ) (call : κ) :
    after step s (calls ++ [call]) = (step (after step s calls) call).2 := by
  rw [after_append, after_cons, after_nil]

/-- What one step preserves, a run preserves. -/
theorem after_inv {I : σ → Prop} (hstep : ∀ s call, I s → I (step s call).2) {s : σ} (h : I s) (calls : List κ) :
    I (after step s calls) := by
  induction calls generalizing s with
  | nil => exact h
  | cons call calls ih => exact ih (hstep s call h)

/-! ### Runs under a condition -/

/-- Each step of a run meets a condition on the state before it and the call. -/
def Along (C : σ → κ → Prop) : σ → List κ → Prop
  | _, [] => True
  | s, call :: calls => C s call ∧ Along C (step s call).2 calls

/-- What a step under the condition preserves, a run under the condition preserves. -/
theorem after_inv_along {I : σ → Prop} {C : σ → κ → Prop} (hstep : ∀ s call, I s → C s call → I (step s call).2) {s : σ}
    (h : I s) {calls : List κ} (hcalls : Along step C s calls) : I (after step s calls) := by
  induction calls generalizing s with
  | nil => exact h
  | cons call calls ih => exact ih (hstep s call h hcalls.1) hcalls.2

/-! ### Steps that latch -/

/-- Where each step either changes nothing or latches, and a latched state stays, a run changes nothing or is its first
step that latches. -/
theorem after_latch {latched : σ → Prop} (hstays : ∀ s call, latched s → (step s call).2 = s)
    (hmoves : ∀ s call, (step s call).2 = s ∨ latched (step s call).2) (s : σ) (calls : List κ) :
    ((∀ call ∈ calls, (step s call).2 = s) ∧ after step s calls = s) ∨
      ∃ before call rest, calls = before ++ call :: rest ∧ (∀ c ∈ before, (step s c).2 = s) ∧
        latched (step s call).2 ∧ after step s calls = (step s call).2 := by
  have hkeeps : ∀ t, latched t → ∀ calls, after step t calls = t := by
    intro t ht calls
    exact after_inv step (I := fun t' => t' = t) (fun t' call h => by rw [h, hstays t call ht]) rfl calls
  induction calls with
  | nil => exact .inl ⟨by simp, rfl⟩
  | cons call calls ih =>
    rcases hmoves s call with hsame | hlatched
    · rw [after_cons, hsame]
      rcases ih with ⟨hall, hafter⟩ | ⟨before, c, rest, rfl, hbefore, hrest⟩
      · exact .inl ⟨List.forall_mem_cons.mpr ⟨hsame, hall⟩, hafter⟩
      · exact .inr ⟨call :: before, c, rest, rfl, List.forall_mem_cons.mpr ⟨hsame, hbefore⟩, hrest⟩
    · exact .inr ⟨[], call, calls, rfl, by simp, hlatched, hkeeps _ hlatched calls⟩

/-! ### Interleavings -/

section Interleaving
variable [DecidableEq ι]

/-- One of several objects takes a call. -/
def stepAt (s : ι → σ) (call : ι × κ) : ρ × (ι → σ) :=
  let next := step (s call.1) call.2
  (next.1, Function.update s call.1 next.2)

/-- The calls of an interleaving that go to one object. -/
def callsOf (i : ι) (calls : List (ι × κ)) : List κ := (calls.filter fun call => call.1 = i).map Prod.snd

/-- The part of a history that belongs to one object. -/
def historyOf (i : ι) (h : List ((ι × κ) × ρ)) : List (κ × ρ) :=
  (h.filter fun entry => entry.1.1 = i).map fun entry => (entry.1.2, entry.2)

theorem callsOf_cons_self (i : ι) (call : κ) (calls : List (ι × κ)) :
    callsOf i ((i, call) :: calls) = call :: callsOf i calls := by
  simp [callsOf]

theorem callsOf_cons_of_ne {i j : ι} (h : j ≠ i) (call : κ) (calls : List (ι × κ)) :
    callsOf i ((j, call) :: calls) = callsOf i calls := by
  simp [callsOf, h]

theorem count_callsOf [DecidableEq κ] (i : ι) (call : κ) (calls : List (ι × κ)) :
    (callsOf i calls).count call = calls.count (i, call) := by
  induction calls with
  | nil => rfl
  | cons entry calls ih =>
    obtain ⟨j, other⟩ := entry
    by_cases h : j = i
    · subst h
      simp [callsOf_cons_self, List.count_cons, ih]
    · simp [callsOf_cons_of_ne h, ih, h]

theorem stepAt_fst (s : ι → σ) (i : ι) (call : κ) : (stepAt step s (i, call)).1 = (step (s i) call).1 := rfl

theorem stepAt_self (s : ι → σ) (i : ι) (call : κ) : (stepAt step s (i, call)).2 i = (step (s i) call).2 :=
  Function.update_self ..

theorem stepAt_of_ne (s : ι → σ) {i j : ι} (h : j ≠ i) (call : κ) : (stepAt step s (j, call)).2 i = s i :=
  Function.update_of_ne h.symm ..

/-- An object's state after an interleaving is its state after its own calls. -/
theorem after_stepAt (s : ι → σ) (calls : List (ι × κ)) (i : ι) :
    after (stepAt step) s calls i = after step (s i) (callsOf i calls) := by
  induction calls generalizing s with
  | nil => rfl
  | cons entry calls ih =>
    obtain ⟨j, call⟩ := entry
    rw [after_cons, ih]
    by_cases h : j = i
    · subst h
      rw [callsOf_cons_self, after_cons, stepAt_self]
    · rw [callsOf_cons_of_ne h, stepAt_of_ne step s h]

/-- An object's replies in an interleaving are its replies to its own calls. -/
theorem historyOf_stepAt (s : ι → σ) (calls : List (ι × κ)) (i : ι) :
    historyOf i (history (stepAt step) s calls) = history step (s i) (callsOf i calls) := by
  induction calls generalizing s with
  | nil => rfl
  | cons entry calls ih =>
    obtain ⟨j, call⟩ := entry
    have hrest := ih (stepAt step s (j, call)).2
    by_cases h : j = i
    · subst h
      rw [stepAt_self] at hrest
      rw [callsOf_cons_self, history, history, ← hrest]
      simp [historyOf, stepAt]
    · rw [stepAt_of_ne step s h] at hrest
      rw [callsOf_cons_of_ne h, history, ← hrest]
      simp [historyOf, h]

end Interleaving

end Runs
