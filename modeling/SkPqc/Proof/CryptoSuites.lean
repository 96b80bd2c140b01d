import Mathlib.Data.List.Induction
import SkPqc.Model.CryptoSuites

/-!
# What the registry reports after any registrations

For each id the registry holds the last suite registered with it (`getSuite_after`), and the lookup helpers report what
it holds. `all_suites` sorts by a key that contains the id, so that no two suites it lists tie and the order in which
they came cannot show; the key begins with `not active`, so the active suites come first.
-/

namespace SkPqc
namespace CryptoSuites

open Wire Runs

/-! ### The last registration of an id -/

/-- The last suite of a list with an id. -/
def lastRegistered (suiteId : Str) (calls : List CryptoSuite) : Option CryptoSuite :=
  calls.reverse.find? fun s => s.suiteId = suiteId

theorem lastRegistered_concat (suiteId : Str) (calls : List CryptoSuite) (s : CryptoSuite) :
    lastRegistered suiteId (calls ++ [s]) = if s.suiteId = suiteId then some s else lastRegistered suiteId calls := by
  rw [lastRegistered, List.reverse_append, List.reverse_singleton, List.singleton_append]
  by_cases h : s.suiteId = suiteId
  · rw [if_pos h, List.find?_cons_of_pos (by simpa using h)]
  · rw [if_neg h, List.find?_cons_of_neg (by simpa using h), lastRegistered]

theorem isSome_lastRegistered {suiteId : Str} {calls : List CryptoSuite} :
    (lastRegistered suiteId calls).isSome = true ↔ ∃ s ∈ calls, s.suiteId = suiteId := by
  simp only [lastRegistered, List.find?_isSome, List.mem_reverse, decide_eq_true_eq]

/-- A registration changes the suite of its own id only. -/
theorem getSuite_register (r : Registry) (s : CryptoSuite) (suiteId : Str) :
    getSuite (register r s).2 suiteId = if s.suiteId = suiteId then some s else getSuite r suiteId :=
  lookup_setItem _ _ _ _

theorem getSuite_after (calls : List CryptoSuite) (suiteId : Str) :
    getSuite (after register .empty calls) suiteId = lastRegistered suiteId calls := by
  induction calls using List.reverseRecOn with
  | nil => rfl
  | append_singleton calls s ih => rw [after_concat, getSuite_register, lastRegistered_concat, ih]

/-! ### The list of all suites -/

theorem map_suiteId_suites (r : Registry) :
    (r.suites.map Prod.snd).map CryptoSuite.suiteId = r.suites.map Prod.fst := by
  rw [List.map_map]
  exact List.map_congr_left fun m hm => (r.keyed m hm).symm

theorem allSuites_perm (r : Registry) : (allSuites r).Perm (r.suites.map Prod.snd) := List.perm_insertionSort _ _

theorem nodup_map_suiteId_allSuites (r : Registry) : ((allSuites r).map CryptoSuite.suiteId).Nodup := by
  rw [((allSuites_perm r).map CryptoSuite.suiteId).nodup_iff, map_suiteId_suites]
  exact r.nodup

theorem mem_allSuites {r : Registry} {s : CryptoSuite} : s ∈ allSuites r ↔ getSuite r s.suiteId = some s := by
  rw [(allSuites_perm r).mem_iff, List.mem_map]
  constructor
  · rintro ⟨⟨k, s⟩, hm, rfl⟩
    obtain rfl : k = s.suiteId := r.keyed _ hm
    exact Json.lookup_of_mem r.nodup hm
  · intro h
    exact ⟨_, Json.mem_of_lookup h, rfl⟩

theorem suiteId_eq_of_sortKey_eq {s t : CryptoSuite} (h : sortKey s = sortKey t) : s.suiteId = t.suiteId :=
  congrArg (fun k => (ofLex (ofLex k).2).2) h

/-- Two registries that list the same suites list them in the same order. -/
theorem allSuites_eq_of_mem_iff {r r' : Registry} (h : ∀ s, s ∈ allSuites r ↔ s ∈ allSuites r') :
    allSuites r = allSuites r' := by
  have hlisted : (allSuites r).Perm (allSuites r') :=
    (List.perm_ext_iff_of_nodup (.of_map _ (nodup_map_suiteId_allSuites r))
      (.of_map _ (nodup_map_suiteId_allSuites r'))).mpr h
  have hstored : (r.suites.map Prod.snd).Perm (r'.suites.map Prod.snd) :=
    ((allSuites_perm r).symm.trans hlisted).trans (allSuites_perm r')
  have hnodup : ((r.suites.map Prod.snd).map CryptoSuite.suiteId).Nodup := by
    rw [map_suiteId_suites]
    exact r.nodup
  refine insertionSort_eq_of_perm sortKey hstored ?_
  intro s hs t ht hkey
  exact List.inj_on_of_nodup_map hnodup hs ht (suiteId_eq_of_sortKey_eq hkey)

theorem active_of_sortKey_le {s t : CryptoSuite} (h : sortKey s ≤ sortKey t) (ht : t.active = true) :
    s.active = true := by
  have hfirst : (!s.active) ≤ !t.active := Prod.Lex.monotone_fst _ _ h
  rw [ht] at hfirst
  cases hs : s.active with
  | true => rfl
  | false =>
    rw [hs] at hfirst
    exact absurd hfirst (by decide)

/-- The active suites are the front of the list. -/
theorem exists_append_activeSuites (r : Registry) :
    ∃ rest, allSuites r = activeSuites r ++ rest ∧ ∀ s ∈ rest, s.active = false := by
  have htotal : Std.Total fun s t => sortKey s ≤ sortKey t := ⟨fun s t => le_total (sortKey s) (sortKey t)⟩
  have htrans : IsTrans CryptoSuite fun s t => sortKey s ≤ sortKey t := ⟨fun _ _ _ => le_trans⟩
  have hsorted : (allSuites r).Pairwise fun s t => sortKey s ≤ sortKey t := List.pairwise_insertionSort _ _
  exact exists_append_filter (hsorted.imp active_of_sortKey_le)

/-! ### Quantum resistance -/

theorem CryptoSuite.isQuantumResistant_iff (s : CryptoSuite) :
    s.isQuantumResistant = true ↔ s.status ≠ .classical := by
  unfold isQuantumResistant
  cases s.status <;> decide

theorem isQuantumResistant_iff (r : Registry) (suiteId : Str) :
    isQuantumResistant r suiteId = true ↔
      (getSuite r suiteId).isSome = true ∧ suiteStatus r suiteId ≠ .classical := by
  unfold isQuantumResistant suiteStatus
  cases getSuite r suiteId with
  | none => simp
  | some s => simp [s.isQuantumResistant_iff]

/-! ### Every run -/

/-- The registry after a sequence of registrations. -/
def registryAfter (calls : List CryptoSuite) : Registry := after register seeded calls

theorem getSuite_registryAfter (calls : List CryptoSuite) (suiteId : Str) :
    getSuite (registryAfter calls) suiteId = lastRegistered suiteId (seedSuites ++ calls) := by
  rw [registryAfter, seeded, ← after_append, getSuite_after]

/-- After any registrations the list of all suites holds the last suite of each id, once, in an order that its members
fix; the active suites are its front; and the quantum-resistant ids are the registered ones that are not classical. -/
theorem registry_honest (calls : List CryptoSuite) :
    ((∀ s, s ∈ allSuites (registryAfter calls) ↔ lastRegistered s.suiteId (seedSuites ++ calls) = some s) ∧
        ((allSuites (registryAfter calls)).map CryptoSuite.suiteId).Nodup) ∧
      (∀ calls', (∀ s, s ∈ allSuites (registryAfter calls) ↔ s ∈ allSuites (registryAfter calls')) →
        allSuites (registryAfter calls) = allSuites (registryAfter calls')) ∧
      (∃ rest, allSuites (registryAfter calls) = activeSuites (registryAfter calls) ++ rest ∧
        (∀ s ∈ activeSuites (registryAfter calls), s.active = true) ∧ ∀ s ∈ rest, s.active = false) ∧
      ∀ suiteId, isQuantumResistant (registryAfter calls) suiteId = true ↔
        (∃ s ∈ seedSuites ++ calls, s.suiteId = suiteId) ∧
          suiteStatus (registryAfter calls) suiteId ≠ .classical := by
  refine ⟨⟨fun s => ?_, nodup_map_suiteId_allSuites _⟩, fun _ => allSuites_eq_of_mem_iff, ?_, fun suiteId => ?_⟩
  · rw [mem_allSuites, getSuite_registryAfter]
  · obtain ⟨rest, hall, hrest⟩ := exists_append_activeSuites (registryAfter calls)
    exact ⟨rest, hall, fun s hs => (List.mem_filter.mp hs).2, hrest⟩
  · rw [isQuantumResistant_iff, getSuite_registryAfter, isSome_lastRegistered]

end CryptoSuites
end SkPqc
