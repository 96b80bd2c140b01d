import SkPqc.Proof.Prekeys

/-!
# The suite gate and the key check

`negotiate_suite` asks `is_hybrid`, which looks at the suite and at whether the key field is empty. `seal` then
decodes that field with `hybrid_public`. The two agree on a bundle of the hybrid suite when its key field is empty
or the hex text of a key; any other text passes the gate, and `seal` raises its format error on it.
-/

namespace SkPqc
namespace Pqdm

open Wire Pqkem Runs

/-! ### The two checks -/

theorem negotiateSuite_eq_hybridSuite {localSupportsHybrid : Bool} {bundle : PrekeyBundle} :
    negotiateSuite localSupportsHybrid bundle = hybridSuite ↔
      localSupportsHybrid = true ∧ bundle.isHybrid = true := by
  unfold negotiateSuite
  by_cases h : (localSupportsHybrid && bundle.isHybrid) = true
  · rw [if_pos h]
    exact ⟨fun _ => Bool.and_eq_true_iff.mp h, fun _ => rfl⟩
  · rw [if_neg h]
    constructor
    · intro hsame
      exact absurd hsame (by decide)
    · intro hboth
      exact absurd (Bool.and_eq_true_iff.mpr hboth) h

/-! ### The seal behind the gate -/

/-- On a hybrid bundle with a key no check of a seal fails. -/
theorem seal_ne_format {P : Primitives} (hforeign : P.RaisesNo .pqDmFormatError) {bundle : PrekeyBundle}
    (hhybrid : bundle.isHybrid = true) {pub : BytesN publicKeyLen} (hpub : bundle.hybridPublic = .ok pub)
    (coins : SealCoins) (plaintext : Bytes) (sender recipient : Str) (msg : List Part) :
    Pqdm.seal P coins plaintext bundle sender recipient ≠ .error ⟨.pqDmFormatError, msg⟩ := by
  have hends : Ends (fun _ => True) (fun e => e.cls ≠ .pqDmFormatError)
      (Pqdm.seal P coins plaintext bundle sender recipient) := by
    simp only [Pqdm.seal, hhybrid, hpub, downgradeLockAad_eq_sealAad, Bool.not_true, Bool.false_eq_true, if_false,
      ok_bind]
    have hkem : ∀ e : Exc, e.In [.pqKemError] → e.cls ≠ .pqDmFormatError := by
      rintro ⟨_, m⟩ he rfl
      exact absurd he Bool.false_ne_true
    refine Ends.bind (ends_hybridEncap hkem coins.encap hkdfInfo (fun _ _ _ _ => ends_ne (hforeign.exchange _ _))
      fun O hO => ends_ne fun m => hforeign.keyEncapsulation O none m hO) fun kem _ => ?_
    exact Ends.bind (ends_ne (hforeign.encrypt _ _ _ _)) fun _ _ => .ok trivial
  intro hraises
  rw [hraises] at hends
  exact hends.of_error rfl

/-- The negotiated suite is hybrid for the bundles with a key only, and a seal behind it never raises the format error,
exactly when a bundle of the hybrid suite has an empty key field or the hex text of a key. -/
theorem negotiateSuite_honest_iff {P : Primitives} (hforeign : P.RaisesNo .pqDmFormatError) {bundle : PrekeyBundle}
    {suite hex : Str} (hsuite : bundle.suite = .str suite) (hhex : bundle.hybridPublicHex = .str hex) :
    ((negotiateSuite true bundle = hybridSuite ↔
          suite = hybridSuite ∧ ∃ pub : BytesN 1216, bundle.hybridPublic = .ok pub) ∧
        ∀ localSupportsHybrid, negotiateSuite localSupportsHybrid bundle = hybridSuite →
          ∀ coins plaintext sender recipient msg,
            Pqdm.seal P coins plaintext bundle sender recipient ≠ .error ⟨.pqDmFormatError, msg⟩) ↔
      suite ≠ hybridSuite ∨ hex = [] ∨ ∃ pub : BytesN 1216, fromHex hex = some pub.val := by
  have hgate : negotiateSuite true bundle = hybridSuite ↔ suite = hybridSuite ∧ hex ≠ [] := by
    rw [negotiateSuite_eq_hybridSuite, PrekeyBundle.isHybrid_iff hsuite hhex]
    exact and_iff_right rfl
  have hkey : ∀ pub : BytesN 1216, bundle.hybridPublic = .ok pub ↔ fromHex hex = some pub.val :=
    fun _ => PrekeyBundle.hybridPublic_eq_ok hhex
  rw [hgate]
  constructor
  · rintro ⟨hhonest, -⟩
    by_cases hsame : suite = hybridSuite
    · by_cases hempty : hex = []
      · exact .inr (.inl hempty)
      · obtain ⟨-, pub, hpub⟩ := hhonest.mp ⟨hsame, hempty⟩
        exact .inr (.inr ⟨pub, (hkey pub).mp hpub⟩)
    · exact .inl hsame
  · intro h
    -- whichever part of the condition holds, a bundle behind the gate has a key
    have hpublic : suite = hybridSuite → hex ≠ [] → ∃ pub : BytesN 1216, bundle.hybridPublic = .ok pub := by
      intro hsame hne
      rcases h with hother | hempty | ⟨pub, hpub⟩
      · exact absurd hsame hother
      · exact absurd hempty hne
      · exact ⟨pub, (hkey pub).mpr hpub⟩
    constructor
    · constructor
      · rintro ⟨hsame, hne⟩
        exact ⟨hsame, hpublic hsame hne⟩
      · rintro ⟨hsame, pub, hpub⟩
        exact ⟨hsame, ne_nil_of_fromHex ((hkey pub).mp hpub)⟩
    · intro localSupportsHybrid hnegotiated
      obtain ⟨-, hhybrid⟩ := negotiateSuite_eq_hybridSuite.mp hnegotiated
      obtain ⟨hsame, hne⟩ := (PrekeyBundle.isHybrid_iff hsuite hhex).mp hhybrid
      obtain ⟨pub, hpub⟩ := hpublic hsame hne
      exact seal_ne_format hforeign hhybrid hpub

/-! ### Two bundles -/

namespace SuiteGateExample

def P : Primitives := StandIn.primitives StandIn.sums []

theorem raisesNo : P.RaisesNo .pqDmFormatError where
  exchange _ _ _ h := by cases h
  keyEncapsulation := by
    rintro _ sk msg ⟨⟩ h
    have hopens : StandIn.oqs.keyEncapsulation sk = .ok () := rfl
    rw [hopens] at h
    cases h
  encrypt _ _ _ _ _ h := by cases h

/-- A bundle of the hybrid suite with a text for its key. -/
def bundle (hex : Str) : PrekeyBundle :=
  { suite := .str hybridSuite, hybridPublicHex := .str hex, signature := .null, keyId := .null }

/-- The gate is honest about a bundle with an empty key field, and not about one whose key field is no hex text. -/
theorem negotiateSuite_honest_run :
    (negotiateSuite true (bundle []) = hybridSuite ↔
        hybridSuite = hybridSuite ∧ ∃ pub : BytesN 1216, (bundle []).hybridPublic = .ok pub) ∧
      ¬((negotiateSuite true (bundle (str "zz")) = hybridSuite ↔
          hybridSuite = hybridSuite ∧ ∃ pub : BytesN 1216, (bundle (str "zz")).hybridPublic = .ok pub) ∧
        ∀ localSupportsHybrid, negotiateSuite localSupportsHybrid (bundle (str "zz")) = hybridSuite →
          ∀ coins plaintext sender recipient msg,
            Pqdm.seal P coins plaintext (bundle (str "zz")) sender recipient ≠ .error ⟨.pqDmFormatError, msg⟩) := by
  constructor
  · exact ((negotiateSuite_honest_iff raisesNo rfl rfl).mpr (.inr (.inl rfl))).1
  · intro h
    rcases (negotiateSuite_honest_iff raisesNo rfl rfl).mp h with hsuite | hempty | ⟨pub, hpub⟩
    · exact hsuite rfl
    · cases hempty
    · cases hpub

/-- The bundle with the text `zz` is negotiated as hybrid, has no key, and makes every seal raise the format error. -/
theorem exists_unusable_hybrid :
    negotiateSuite true (bundle (str "zz")) = hybridSuite ∧
      (∀ pub : BytesN 1216, (bundle (str "zz")).hybridPublic ≠ .ok pub) ∧
      ∀ coins plaintext, Pqdm.seal P coins plaintext (bundle (str "zz")) (str "bob") (str "alice")
        = .error ⟨.pqDmFormatError, [.lit "hybrid_public_hex not hex: ", .lib]⟩ := by
  refine ⟨rfl, ?_, fun _ _ => rfl⟩
  intro pub h
  cases h

end SuiteGateExample

end Pqdm
end SkPqc
