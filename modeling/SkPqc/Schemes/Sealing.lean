import Mathlib.Data.Set.Function

/-!
# Sealings on record

An authenticated cipher whose keys come from sources: a source is what a key is derived from, or the key
itself. A `Sealing` is one encryption as its maker knows it, an `Attempt` is a decryption as its maker knows
it, and neither knows of the other. `Guards` is what the cipher and the derivation promise for a set of
sealings and a set of attempts; then an attempt gives exactly what a sealing from the same source, with the
same nonce, associated data and ciphertext, put in (`result_eq_some_iff`).
-/

namespace Schemes

variable {Source Key Nonce Aad Body Data : Type*}

/-- A decryption: where the key comes from, and what it is used on. -/
@[ext] structure Attempt (Source Nonce Aad Body : Type*) where
  source : Source
  nonce : Nonce
  aad : Aad
  body : Body

/-- An encryption: the attempt that undoes it, and the data that went in. -/
@[ext] structure Sealing (Source Nonce Aad Body Data : Type*) extends Attempt Source Nonce Aad Body where
  data : Data

/-- A cipher with its key derivation. -/
structure Cipher (Source Key Nonce Aad Body Data : Type*) where
  key : Source → Key
  decrypt : Key → Nonce → Aad → Body → Option Data

namespace Cipher

variable (C : Cipher Source Key Nonce Aad Body Data)

/-- What an attempt gives. -/
def result (a : Attempt Source Nonce Aad Body) : Option Data := C.decrypt (C.key a.source) a.nonce a.aad a.body

/-- The sources that sealings and attempts take keys from. -/
def sources (made : Set (Sealing Source Nonce Aad Body Data)) (tried : Set (Attempt Source Nonce Aad Body)) :
    Set Source :=
  {i | (∃ s ∈ made, i = s.source) ∨ ∃ a ∈ tried, i = a.source}

/-- The cipher undoes every sealing. -/
def Undoes (made : Set (Sealing Source Nonce Aad Body Data)) : Prop := ∀ s ∈ made, C.result s.toAttempt = some s.data

/-- The cipher accepts no attempt but on the key, nonce, associated data and ciphertext of a sealing, and no two
sources in use give one key. -/
structure Guards (made : Set (Sealing Source Nonce Aad Body Data)) (tried : Set (Attempt Source Nonce Aad Body)) :
    Prop where
  authentic : ∀ a ∈ tried, ∀ data, C.result a = some data →
    ∃ s ∈ made, C.key s.source = C.key a.source ∧ s.nonce = a.nonce ∧ s.aad = a.aad ∧ s.body = a.body
  separated : Set.InjOn C.key (sources made tried)

variable {C} {made : Set (Sealing Source Nonce Aad Body Data)} {tried : Set (Attempt Source Nonce Aad Body)}

/-- An attempt gives what was sealed from the same source, and nothing else. -/
theorem Guards.result_eq_some_iff (h : C.Guards made tried) (hundoes : C.Undoes made)
    {a : Attempt Source Nonce Aad Body} (ha : a ∈ tried) {data : Data} : C.result a = some data ↔ ⟨a, data⟩ ∈ made := by
  constructor
  · intro hopen
    obtain ⟨s, hs, hkey, hnonce, haad, hbody⟩ := h.authentic a ha data hopen
    have hsource : s.source = a.source := h.separated (.inl ⟨s, hs, rfl⟩) (.inr ⟨a, ha, rfl⟩) hkey
    obtain rfl : s.toAttempt = a := Attempt.ext hsource hnonce haad hbody
    obtain rfl : s.data = data := Option.some.inj ((hundoes s hs).symm.trans hopen)
    exact hs
  · exact fun hmade => hundoes _ hmade

/-- The sources of a set of sealings. -/
def sourcesOf (made : Set (Sealing Source Nonce Aad Body Data)) : Set Source := {i | ∃ s ∈ made, i = s.source}

/-- Attempts on what was sealed are guarded as soon as the keys are told apart. -/
theorem Guards.of_made (htried : ∀ a ∈ tried, ∃ data, ⟨a, data⟩ ∈ made) (hkeys : Set.InjOn C.key (sourcesOf made)) :
    C.Guards made tried where
  authentic a ha _ _ := by
    obtain ⟨data, hmade⟩ := htried a ha
    exact ⟨_, hmade, rfl, rfl, rfl, rfl⟩
  separated := by
    refine hkeys.mono ?_
    rintro i (⟨s, hs, rfl⟩ | ⟨a, ha, rfl⟩)
    · exact ⟨s, hs, rfl⟩
    · obtain ⟨data, hmade⟩ := htried a ha
      exact ⟨_, hmade, rfl⟩

end Cipher

end Schemes
