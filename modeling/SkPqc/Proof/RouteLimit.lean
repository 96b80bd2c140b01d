import SkPqc.Proof.Routing
import SkPqc.Runs.Outcomes

/-!
# Routing headers and the recursion limit

`json.loads` raises `RecursionError` on a text that nests past the interpreter's limit, and `except (ValueError,
UnicodeDecodeError)` lets it through. So under a limit the relay and the destination do what they do without one,
or raise `RecursionError` (`openRoutedWithin_sameOr`): whatever is proved of what they return holds under every
limit. Where that error comes up in front of the decryption is decided by the header's text alone.
-/

namespace SkPqc
namespace Pqroute

open Wire Pqkem Runs

/-- The bytes are a UTF-8 text that nests past the limit. -/
def NestsPast (P : Primitives) (levels : Nat) (b : Bytes) : Prop :=
  ∃ text, Scalar text ∧ utf8 text = b ∧ levels < Json.nesting P.floatText text

/-- The class of the error that only an interpreter with a limit raises. -/
def IsRecursionError (e : Exc) : Prop := e.cls = .recursionError

section Limited
variable {P : Primitives} {levels : Nat}

theorem sameOr_tryExcept {α : Type} {classes : List ExcClass} {err : Exc → Prop}
    (hclasses : ∀ e, err e → classes.any e.isA = false) {x y : Py α} (h : SameOr err x y) (handler : Exc → Py α) :
    SameOr err (tryExcept classes x handler) (tryExcept classes y handler) := by
  rcases h with rfl | ⟨e, rfl, he⟩
  · exact .refl _
  · refine .inr ⟨e, ?_, he⟩
    simp only [tryExcept, hclasses e he, Bool.false_eq_true, if_false]

/-- Neither decoder catches it. -/
theorem not_caught {e : Exc} (h : IsRecursionError e) :
    [ExcClass.valueError, ExcClass.unicodeDecodeError].any e.isA = false := by
  obtain ⟨cls, msg⟩ := e
  obtain rfl : cls = .recursionError := h
  rfl

theorem jsonLoadsWithin_sameOr (P : Primitives) (levels : Nat) (s : Str) :
    SameOr IsRecursionError (P.jsonLoadsWithin levels s) (P.jsonLoads s) := by
  rw [Primitives.jsonLoadsWithin_eq]
  by_cases hdeep : levels < Json.nesting P.floatText s
  · rw [if_pos hdeep]
    exact .inr ⟨_, rfl, rfl⟩
  · rw [if_neg hdeep]
    exact .refl _

theorem loadsHeader_sameOr (P : Primitives) (levels : Nat) (cls : ExcClass) (text : String) (b : Bytes) :
    SameOr IsRecursionError (loadsHeader (P.jsonLoadsWithin levels) cls text b) (loadsHeader P.jsonLoads cls text b) :=
  sameOr_tryExcept (fun _ => not_caught) ((SameOr.refl _).bind fun s => jsonLoadsWithin_sameOr P levels s) _

/-! ### The two decoders -/

theorem readRouteHeaderWithin_sameOr (P : Primitives) (levels : Nat) (blob : PyVal) :
    SameOr IsRecursionError (readRouteHeaderWithin P levels blob) (readRouteHeader P blob) :=
  (SameOr.refl _).bind fun _ => loadsHeader_sameOr P levels _ _ _

theorem splitInner_sameOr (P : Primitives) (levels : Nat) (inner : Bytes) :
    SameOr IsRecursionError (splitInner (P.jsonLoadsWithin levels) inner) (splitInner P.jsonLoads inner) := by
  refine SameOr.ite (.refl _) (SameOr.ite (.refl _) ?_)
  exact (loadsHeader_sameOr P levels _ _ _).bind fun _ => .refl _

theorem openRoutedWithin_sameOr (P : Primitives) (levels : Nat) (blob destHybridPriv : PyVal) :
    SameOr IsRecursionError (openRoutedWithin P levels blob destHybridPriv) (openRouted P blob destHybridPriv) := by
  refine (SameOr.refl _).bind fun layers => SameOr.ite (.refl _) ?_
  refine (loadsHeader_sameOr P levels _ _ _).bind fun routeHdr => ?_
  refine (SameOr.refl _).bind fun ss => (SameOr.refl _).bind fun inner => ?_
  exact (splitInner_sameOr P levels inner).bind fun _ => .refl _

/-! ### Which headers raise it -/

theorem loadsHeader_of_nestsPast {b : Bytes} (h : NestsPast P levels b) (cls : ExcClass) (text : String) :
    loadsHeader (P.jsonLoadsWithin levels) cls text b = raiseLib .recursionError := by
  obtain ⟨s, hs, rfl, hdeep⟩ := h
  have hdecode : bytesDecode (utf8 s) = .ok s := bytesDecode_eq_ok.mpr ⟨hs, rfl⟩
  rw [loadsHeader, hdecode, ok_bind, Primitives.jsonLoadsWithin_eq, if_pos hdeep]
  rfl

theorem loadsHeader_of_not_nestsPast {b : Bytes} (h : ¬NestsPast P levels b) (cls : ExcClass) (text : String) :
    loadsHeader (P.jsonLoadsWithin levels) cls text b = loadsHeader P.jsonLoads cls text b := by
  rw [loadsHeader, loadsHeader]
  cases hdecode : bytesDecode b with
  | error e => rfl
  | ok s =>
    obtain ⟨hs, hb⟩ := bytesDecode_eq_ok.mp hdecode
    rw [ok_bind, ok_bind, Primitives.jsonLoadsWithin_eq, if_neg fun hdeep => h ⟨s, hs, hb, hdeep⟩]

/-- The text of a header nests as deep as the header. -/
theorem nestsPast_dumps {v : Json} (hv : v.Plain) : NestsPast P levels (utf8 (Json.dumps v)) ↔ levels < v.depth := by
  have hscalar := Json.scalar_dumps hv
  constructor
  · rintro ⟨text, htext, hutf8, hdeep⟩
    rwa [utf8_injective htext hscalar hutf8, Json.nesting_dumps _ hv] at hdeep
  · intro hdeep
    refine ⟨_, hscalar, rfl, ?_⟩
    rwa [Json.nesting_dumps _ hv]

theorem scalar_lbrackets (n : Nat) : Scalar (List.replicate n Json.lbracket) := by
  intro c hc
  rw [List.eq_of_mem_replicate hc]
  decide

/-- `b"[" * n` -/
def brackets (n : Nat) : Bytes := utf8 (List.replicate n Json.lbracket)

theorem length_brackets (n : Nat) : (brackets n).length = n := by
  induction n with
  | zero => rfl
  | succ n ih =>
    rw [brackets, List.replicate_succ, utf8_cons, List.length_append, ← brackets, ih, Nat.add_comm]
    rfl

theorem nestsPast_brackets {n : Nat} (h : levels < n) : NestsPast P levels (brackets n) := by
  refine ⟨_, scalar_lbrackets n, rfl, h.trans_le ?_⟩
  have hdeep := Json.le_nesting P.floatText n []
  rwa [List.append_nil] at hdeep

/-! ### Sealed blobs under a limit -/

/-- Headers that are no deeper than the limit are read and opened as without one. -/
theorem openRoutedWithin_sealRouted (hkem : P.KemCorrect) (haead : P.AeadCorrect) {priv : BytesN privateKeyLen}
    {pub : BytesN publicKeyLen} (hkey : IsKeypair P priv pub) {coins : SealCoins} {innerMetadata routeHdr : Json}
    (hmeta : innerMetadata.Plain) (hroute : routeHdr.Plain) (hmetaDepth : innerMetadata.depth ≤ levels)
    (hrouteDepth : routeHdr.depth ≤ levels) {content blob : Bytes}
    (hseal : sealRouted P coins innerMetadata content (.bytes pub) routeHdr = .ok blob) :
    readRouteHeaderWithin P levels (.bytes blob) = .ok routeHdr.sortKeys ∧
      openRoutedWithin P levels (.bytes blob) (.bytes priv) =
        .ok (routeHdr.sortKeys, innerMetadata.sortKeys, content) := by
  refine openRoutedWith_sealRouted hkem haead hkey hmeta hroute (fun v hv cls text => ?_) hseal
  obtain ⟨hplain, hdepth⟩ : v.Plain ∧ v.depth ≤ levels := by
    obtain rfl | rfl : v = innerMetadata ∨ v = routeHdr := by simpa using hv
    · exact ⟨hmeta, hmetaDepth⟩
    · exact ⟨hroute, hrouteDepth⟩
  have hnot : ¬NestsPast P levels (utf8 (Json.dumps v)) := fun h => ((nestsPast_dumps hplain).mp h).not_ge hdepth
  rw [loadsHeader_of_not_nestsPast hnot]
  exact loadsHeader_dumps P cls text hplain

end Limited

end Pqroute
end SkPqc
