import SkPqc.Proof.CryptoSuites
import SkPqc.Proof.StandIn
import SkPqc.Wire.JsonRoundTrip

/-!
# The self-report

The registry is reported as the dictionary views of all suites, printed as JSON. Nothing is lost on the way: the view
of a suite determines it (`toDict_inj`), so whoever parses the report knows what every lookup answers.
-/

namespace SkPqc
namespace CryptoSuites

open Wire

/-- `[s.to_dict() for s in all_suites()]` -/
def report (r : Registry) : Json := .arr ((allSuites r).map fun s => .obj s.toDict)

/-- The strings in a suite. -/
def CryptoSuite.texts (s : CryptoSuite) : List Str :=
  s.suiteId :: s.description :: (s.replaces.toList ++ s.primitives ++ s.fipsRefs)

/-- A suite whose strings are of scalar values. -/
def CryptoSuite.Scalars (s : CryptoSuite) : Prop := ∀ t ∈ s.texts, Scalar t

theorem nodup_toDict (s : CryptoSuite) : (s.toDict.map Prod.fst).Nodup := by
  simp only [CryptoSuite.toDict, List.map_cons, List.map_nil]
  decide

theorem CryptoSuite.Scalars.plain {s : CryptoSuite} (h : s.Scalars) : Json.Plain (.obj s.toDict) := by
  simp only [CryptoSuite.Scalars, CryptoSuite.texts, List.forall_mem_cons, List.forall_mem_append,
    Option.mem_toList] at h
  obtain ⟨hid, hdescription, ⟨hreplaced, hprimitives⟩, hrefs⟩ := h
  have hkind : Scalar s.kind.value := by
    cases s.kind <;> exact scalar_str _
  have hstatus : Scalar s.status.value := by
    cases s.status <;> exact scalar_str _
  have hreplaces : Json.Plain (optional s.replaces) := by
    cases hr : s.replaces with
    | none => trivial
    | some r => exact hreplaced r hr
  refine ⟨nodup_toDict s, ?_⟩
  simp only [CryptoSuite.toDict, Json.PlainMembers, and_true]
  exact ⟨⟨scalar_str _, hid⟩, ⟨scalar_str _, hkind⟩, ⟨scalar_str _, hstatus⟩,
    ⟨scalar_str _, Json.plain_arr_strs hprimitives⟩, ⟨scalar_str _, Json.plain_arr_strs hrefs⟩,
    ⟨scalar_str _, hdescription⟩, ⟨scalar_str _, trivial⟩, ⟨scalar_str _, trivial⟩,
    scalar_str _, hreplaces⟩

theorem SuiteKind.value_injective : Function.Injective SuiteKind.value := by
  intro k k' h
  cases k <;> cases k' <;> first | rfl | exact absurd h (by decide)

theorem SuiteStatus.value_injective : Function.Injective SuiteStatus.value := by
  intro t t' h
  cases t <;> cases t' <;> first | rfl | exact absurd h (by decide)

theorem sortKeys_optional (o : Option Str) : (optional o).sortKeys = optional o := by
  cases o <;> rfl

theorem optional_injective : Function.Injective optional := by
  intro o o' h
  cases o <;> cases o' <;> cases h <;> rfl

theorem map_str_injective : Function.Injective (List.map Json.str) := List.map_injective_iff.mpr fun _ _ => Json.str.inj

/-- The view of a suite determines the suite, in any order of its members. -/
theorem toDict_inj {s s' : CryptoSuite} (h : (Json.obj s.toDict).sortKeys = (Json.obj s'.toDict).sortKeys) :
    s = s' := by
  have hlookup := Json.lookup_eq_of_sortKeys_eq (nodup_toDict s) (nodup_toDict s') h
  have hid : some (Json.str s.suiteId) = some (.str s'.suiteId) := hlookup (str "suite_id")
  have hkind : some (Json.str s.kind.value) = some (.str s'.kind.value) := hlookup (str "kind")
  have hstatus : some (Json.str s.status.value) = some (.str s'.status.value) := hlookup (str "status")
  have hprimitives : some (Json.arr (s.primitives.map .str)).sortKeys
      = some (Json.arr (s'.primitives.map .str)).sortKeys := hlookup (str "primitives")
  have hrefs : some (Json.arr (s.fipsRefs.map .str)).sortKeys = some (Json.arr (s'.fipsRefs.map .str)).sortKeys :=
    hlookup (str "fips_refs")
  have hdescription : some (Json.str s.description) = some (.str s'.description) := hlookup (str "description")
  have hactive : some (Json.bool s.active) = some (.bool s'.active) := hlookup (str "active")
  have hreplaces : some (optional s.replaces).sortKeys = some (optional s'.replaces).sortKeys :=
    hlookup (str "replaces")
  rw [Json.sortKeys_arr_strs, Json.sortKeys_arr_strs] at hprimitives hrefs
  rw [sortKeys_optional, sortKeys_optional] at hreplaces
  obtain ⟨suiteId, kind, status, primitives, fipsRefs, description, active, replaces⟩ := s
  simp only [Option.some.injEq, Json.str.injEq, Json.arr.injEq, Json.bool.injEq, SuiteKind.value_injective.eq_iff,
    SuiteStatus.value_injective.eq_iff, map_str_injective.eq_iff, optional_injective.eq_iff]
    at hid hkind hstatus hprimitives hrefs hdescription hactive hreplaces
  rw [hid, hkind, hstatus, hprimitives, hrefs, hdescription, hactive, hreplaces]

/-! ### What a reader of the report knows -/

theorem mem_of_after {calls : List CryptoSuite} {s : CryptoSuite} (h : s ∈ allSuites (registryAfter calls)) :
    s ∈ seedSuites ++ calls := by
  rw [mem_allSuites, getSuite_registryAfter] at h
  exact List.mem_reverse.mp (List.mem_of_find?_eq_some h)

/-- A list of suites as JSON text is parsed as the list of their views, each with its keys sorted. -/
theorem loads_report (floatText : Str → Str) {r : Registry} (hscalars : ∀ s ∈ allSuites r, s.Scalars) :
    Json.loads floatText (Json.dumps (report r))
      = some (.arr ((allSuites r).map fun s => (Json.obj s.toDict).sortKeys)) := by
  have hplain : Json.Plain (report r) := by
    show Json.PlainItems _
    rw [Json.plainItems_iff]
    intro item hitem
    obtain ⟨s, hs, rfl⟩ := List.mem_map.mp hitem
    exact (hscalars s hs).plain
  rw [Json.loads_dumps floatText hplain, report, Json.sortKeys, Json.sortKeysItems_eq_map, List.map_map]
  rfl

theorem scalars_seedSuites : ∀ s ∈ seedSuites, s.Scalars := by
  simp only [seedSuites, List.forall_mem_cons, CryptoSuite.Scalars, CryptoSuite.texts, Option.toList_none,
    Option.toList_some, List.cons_append, List.nil_append, scalar_str, List.not_mem_nil, false_imp_iff, implies_true,
    and_true]

theorem lookup_view (s : CryptoSuite) {members : List (Str × Json)}
    (h : Json.obj members = (Json.obj s.toDict).sortKeys) (key : Str) :
    lookup key members = (lookup key s.toDict).map Json.sortKeys := by
  rw [Json.obj.inj h, Json.lookup_sortMembers (nodup_toDict s)]

theorem isQuantumResistant_eq_true {r : Registry} {suiteId : Str} :
    isQuantumResistant r suiteId = true ↔ ∃ s, getSuite r suiteId = some s ∧ s.isQuantumResistant = true := by
  unfold isQuantumResistant
  cases getSuite r suiteId with
  | none => simp
  | some s => simp

/-- After any registrations the text of the report says what the registry says: which suites are registered, with all
that is known of them, and which ids are quantum-resistant. -/
theorem report_lossless (P : Primitives) (calls : List CryptoSuite) (hscalars : ∀ s ∈ calls, s.Scalars) :
    ∃ items, P.jsonLoads (Json.dumps (report (registryAfter calls))) = .ok (.arr items) ∧
      (∀ s : CryptoSuite, s.Scalars → (getSuite (registryAfter calls) s.suiteId = some s ↔
        ∃ item ∈ items, Json.Same item (.obj s.toDict))) ∧
      ∀ suiteId, isQuantumResistant (registryAfter calls) suiteId = true ↔
        ∃ members, .obj members ∈ items ∧ lookup (str "suite_id") members = some (.str suiteId) ∧
          lookup (str "quantum_resistant") members = some (.bool true) := by
  have hall : ∀ s ∈ allSuites (registryAfter calls), s.Scalars := by
    intro s hs
    rcases List.mem_append.mp (mem_of_after hs) with hseed | hcall
    · exact scalars_seedSuites s hseed
    · exact hscalars s hcall
  refine ⟨_, ofOption_eq_ok.mpr (loads_report P.floatText hall), fun s hs => ?_, fun suiteId => ?_⟩
  · rw [← mem_allSuites]
    constructor
    · intro hmem
      exact ⟨_, List.mem_map_of_mem hmem, Json.same_sortKeys hs.plain⟩
    · rintro ⟨item, hitem, hsame⟩
      obtain ⟨s', hs', rfl⟩ := List.mem_map.mp hitem
      have hplain := (hall s' hs').plain
      have hkeys := (Json.same_iff_sortKeys_eq hplain.sortKeys hplain).mp (Json.same_sortKeys hplain)
      rw [← toDict_inj (hkeys.symm.trans ((Json.same_iff_sortKeys_eq hplain.sortKeys hs.plain).mp hsame))]
      exact hs'
  · constructor
    · intro h
      obtain ⟨s, hsuite, hresistant⟩ := isQuantumResistant_eq_true.mp h
      obtain rfl : suiteId = s.suiteId := (registryAfter calls).keyed _ (Json.mem_of_lookup hsuite)
      refine ⟨_, List.mem_map_of_mem (mem_allSuites.mpr hsuite), ?_, ?_⟩
      · rw [lookup_view s rfl]
        rfl
      · rw [lookup_view s rfl, ← hresistant]
        rfl
    · rintro ⟨members, hmembers, hid, hresistant⟩
      obtain ⟨s, hs, hview⟩ := List.mem_map.mp hmembers
      rw [lookup_view s hview.symm] at hid hresistant
      have hsame : some (Json.str s.suiteId) = some (.str suiteId) := hid
      have hflag : some (Json.bool s.isQuantumResistant) = some (.bool true) := hresistant
      cases hsame
      exact isQuantumResistant_eq_true.mpr ⟨s, mem_allSuites.mp hs, Json.bool.inj (Option.some.inj hflag)⟩

/-- The report of the registry as it starts calls `x25519-mlkem768` quantum-resistant. -/
theorem report_lossless_run : ∃ items members,
    (StandIn.primitives StandIn.sums []).jsonLoads (Json.dumps (report (registryAfter []))) = .ok (.arr items) ∧
      .obj members ∈ items ∧ lookup (str "suite_id") members = some (.str (str "x25519-mlkem768")) ∧
      lookup (str "quantum_resistant") members = some (.bool true) := by
  obtain ⟨items, hitems, -, hreport⟩ := report_lossless (StandIn.primitives StandIn.sums []) [] (by simp)
  obtain ⟨members, hmembers⟩ := (hreport (str "x25519-mlkem768")).mp (by decide)
  exact ⟨items, members, hitems, hmembers⟩

end CryptoSuites
end SkPqc
