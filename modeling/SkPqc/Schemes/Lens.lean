/-!
# A part of a record that is read and written

Reading and writing can both fail. What is written comes back in a normal form, and one write hides the one
before it; so after any run of writes only the last one is left (`Lawful.put_of_puts`).
-/

namespace Schemes

/-- One part, of type `V`, of a record of type `S`. -/
structure Lens (ε S V : Type) where
  get : S → Except ε V
  put : S → V → Except ε S

namespace Lens

variable {ε S V : Type} (L : Lens ε S V)

/-- The record after the values are written one after another. -/
def puts (s : S) (vs : List V) : Except ε S := vs.foldlM L.put s

/-- The laws of a lens, for the values of `good`. -/
structure Lawful (good : V → Prop) (norm : V → V) : Prop where
  get_put : ∀ {s s' v}, good v → L.put s v = .ok s' → L.get s' = .ok (norm v)
  put_put : ∀ {s s' v} (w : V), L.put s v = .ok s' → L.put s' w = L.put s w
  put_norm : ∀ {v} (s : S), good v → L.put s (norm v) = L.put s v

variable {L} {good : V → Prop} {norm : V → V} {s s' : S} {v : V}

theorem puts_nil (s : S) : L.puts s [] = .ok s := rfl

theorem puts_cons {w : V} (hput : L.put s w = .ok s') (vs : List V) : L.puts s (w :: vs) = L.puts s' vs := by
  rw [puts, List.foldlM_cons, hput]
  rfl

/-- The first write of a run that goes through has gone through. -/
theorem exists_put_of_puts {w : V} {vs : List V} (hputs : L.puts s (w :: vs) = .ok s') :
    ∃ t, L.put s w = .ok t ∧ L.puts t vs = .ok s' := by
  cases hput : L.put s w with
  | error e =>
    rw [puts, List.foldlM_cons, hput] at hputs
    cases hputs
  | ok t => exact ⟨t, rfl, puts_cons hput vs ▸ hputs⟩

/-- Only the last write of a run counts. -/
theorem Lawful.put_of_puts (hlens : L.Lawful good norm) {vs : List V} (hputs : L.puts s (vs ++ [v]) = .ok s') :
    L.put s v = .ok s' := by
  induction vs generalizing s with
  | nil =>
    obtain ⟨t, hput, hnil⟩ := exists_put_of_puts hputs
    rw [hput, ← hnil, puts_nil]
  | cons w vs ih =>
    obtain ⟨t, hput, hrest⟩ := exists_put_of_puts hputs
    rw [← hlens.put_put v hput]
    exact ih hrest

/-- What a run of writes leaves is read back. -/
theorem Lawful.get_of_puts (hlens : L.Lawful good norm) (hv : good v) {vs : List V}
    (hputs : L.puts s (vs ++ [v]) = .ok s') : L.get s' = .ok (norm v) :=
  hlens.get_put hv (hlens.put_of_puts hputs)

/-- To write back what is read changes nothing. -/
theorem Lawful.put_get (hlens : L.Lawful good norm) (hv : good v) (hput : L.put s v = .ok s') :
    L.put s' (norm v) = .ok s' := by
  rw [hlens.put_norm s' hv, hlens.put_put v hput, hput]

end Lens

end Schemes
