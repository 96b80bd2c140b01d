import SkPqc.Proof.Contained
import SkPqc.Proof.StandIn

/-!
# What the KEM raises

Both functions check lengths first and rename every error of the libraries, each in a `try` of its own.
The exchange of an encapsulation stands outside any `try`, so a low-order X25519 half of the peer's key
makes pyca's `ValueError` escape; the exchange of a decapsulation stands inside one.
-/

namespace SkPqc
namespace Pqkem

open Wire Runs

theorem in_pqKemError (m : List Part) : Exc.In [.pqKemError] ⟨.pqKemFormatError, m⟩ := rfl

theorem contained_importOqs (P : Primitives) : Contained [.pqKemError] (importOqs P) :=
  contained_renamed (contained_exception _) fun _ => rfl

theorem ends_expectLen (label : String) (value : PyVal) (n : Nat) :
    Ends (fun b : BytesN n => value.data? = some b.val) (Exc.In [.pqKemError]) (expectLen label value n) := by
  unfold expectLen
  split
  · exact ends_raise (in_pqKemError _)
  · rename_i b hdata
    by_cases h : b.length = n
    · rw [dif_pos h]
      exact .ok hdata
    · rw [dif_neg h]
      exact ends_raise (in_pqKemError _)

theorem contained_expectLen (label : String) (value : PyVal) (n : Nat) :
    Contained [.pqKemError] (expectLen label value n) :=
  (ends_expectLen label value n).mono (fun _ _ => trivial) fun _ he => he

/-- A decapsulation raises nothing else, on arguments of any type. -/
theorem contained_hybridDecap {P : Primitives} (hopens : ∀ oqs, P.importOqs = .ok oqs → oqs.Opens)
    (ciphertext privateKey : PyVal) (info : Bytes) :
    Contained [.pqKemError] (hybridDecap P ciphertext privateKey info) := by
  refine Ends.bind (contained_importOqs P).with_ok fun oqs hoqs => ?_
  refine Contained.bind (contained_expectLen _ _ _) fun ct => ?_
  refine Contained.bind (contained_expectLen _ _ _) fun priv => ?_
  refine Contained.bind (contained_renamed (contained_exception _) in_pqKemError) fun xSs => ?_
  rw [(hopens oqs (importOqs_eq_ok.mp hoqs)).withSecret, ok_bind]
  exact Contained.bind (contained_renamed (contained_exception _) in_pqKemError) fun _ => contained_ok _

/-- Besides a `PqKemError` an encapsulation raises what its exchange and the opened context raise. -/
theorem ends_hybridEncap {P : Primitives} {err : Exc → Prop} (hkem : ∀ e : Exc, e.In [.pqKemError] → err e)
    (coins : EncapCoins) {peer : PyVal} (info : Bytes)
    (hexchange : ∀ (pub : BytesN publicKeyLen) (xPeer : BytesN x25519PubLen), peer.data? = some pub.val →
      P.x25519.fromPublicBytes pub.left = .ok xPeer →
      Ends (fun _ => True) err (P.x25519.exchange coins.ephemeral xPeer))
    (hopens : ∀ oqs, P.importOqs = .ok oqs → Ends (fun _ => True) err (oqs.keyEncapsulation none)) :
    Ends (fun _ => True) err (hybridEncap P coins peer info) := by
  refine Ends.bind ((contained_importOqs P).with_ok.mono (fun _ h => h) hkem) fun oqs hoqs => ?_
  refine Ends.bind ((ends_expectLen _ _ _).mono (fun _ h => h) hkem) fun pub hpub => ?_
  refine Ends.bind (Ends.renamed (contained_exception _).with_ok fun m => hkem _ (in_pqKemError m)) fun xPeer hx => ?_
  refine Ends.bind (hexchange pub xPeer hpub hx) fun xSs _ => ?_
  refine Ends.bind (hopens oqs (importOqs_eq_ok.mp hoqs)) fun _ _ => ?_
  refine Ends.bind (Ends.renamed (contained_exception _) fun m => hkem _ (in_pqKemError m)) fun _ _ => ?_
  exact Ends.bind ((ends_expectLen _ _ _).mono (fun _ h => h) hkem) fun _ _ => .ok trivial

/-- An encapsulation raises what its exchange raises. -/
theorem contained_hybridEncap {P : Primitives} (hopens : ∀ oqs, P.importOqs = .ok oqs → oqs.Opens)
    (coins : EncapCoins) {peer : PyVal} (info : Bytes)
    (hexchange : ∀ (pub : BytesN publicKeyLen) (xPeer : BytesN x25519PubLen), peer.data? = some pub.val →
      P.x25519.fromPublicBytes pub.left = .ok xPeer →
      Contained [.pqKemError] (P.x25519.exchange coins.ephemeral xPeer)) :
    Contained [.pqKemError] (hybridEncap P coins peer info) := by
  refine ends_hybridEncap (fun _ he => he) coins info hexchange fun oqs hoqs => ?_
  rw [(hopens oqs hoqs).fresh]
  exact contained_ok ()

/-- Some private key has an all-zero secret with the public value. -/
def LowOrder (shared : BytesN 32 → BytesN 32 → BytesN 32) (u : BytesN 32) : Prop := ∃ k, shared k u = .zero 32

theorem hybridEncap_zero {P : Primitives} {oqs : Oqs} (hoqs : P.importOqs = .ok oqs)
    {shared : BytesN 32 → BytesN 32 → BytesN 32} (hx : P.x25519.ChecksZero shared) {coins : EncapCoins} {peer : PyVal}
    {pub : BytesN publicKeyLen} (hpeer : peer.data? = some pub.val)
    (hzero : shared coins.ephemeral pub.left = .zero 32) (info : Bytes) :
    hybridEncap P coins peer info = .error ⟨.valueError, [.lib]⟩ := by
  have hpub : P.x25519.fromPublicBytes pub.left = .ok pub.left := hx.fromPublicBytes _
  have hexchange : P.x25519.exchange coins.ephemeral pub.left = raiseLib .valueError :=
    (hx.exchange _ _).trans (if_pos hzero)
  rw [hybridEncap, importOqs_eq_ok.mpr hoqs, ok_bind, expectLen_eq_ok.mpr hpeer, ok_bind]
  simp only [hpub, tryExcept_ok, ok_bind, hexchange]
  rfl

/-- Whatever an encapsulation draws, it and any decapsulation raise a `PqKemError` only: exactly when the peer's key
is not a key of the right length with a low-order X25519 half. -/
theorem contained_kem_iff {P : Primitives} {oqs : Oqs} (hoqs : P.importOqs = .ok oqs) (hopens : oqs.Opens)
    {shared : BytesN 32 → BytesN 32 → BytesN 32} (hx : P.x25519.ChecksZero shared)
    (peer ciphertext privateKey : PyVal) (info : Bytes) :
    ((∀ coins, Contained [.pqKemError] (hybridEncap P coins peer info)) ∧
        Contained [.pqKemError] (hybridDecap P ciphertext privateKey info)) ↔
      ∀ pub : BytesN publicKeyLen, peer.data? = some pub.val → ¬LowOrder shared pub.left := by
  have hopens' : ∀ oqs', P.importOqs = .ok oqs' → oqs'.Opens := by
    intro oqs' hoqs'
    rw [hoqs] at hoqs'
    cases hoqs'
    exact hopens
  constructor
  · rintro ⟨hencap, -⟩ pub hpub ⟨k, hzero⟩
    have hcontained := hencap { ephemeral := k, mlkem := [] }
    rw [hybridEncap_zero hoqs hx hpub hzero] at hcontained
    exact absurd hcontained.of_error Bool.false_ne_true
  · intro hpeer
    refine ⟨fun coins => ?_, contained_hybridDecap hopens' _ _ _⟩
    refine contained_hybridEncap hopens' coins info fun pub xPeer hpub hxPeer => ?_
    rw [hx.fromPublicBytes] at hxPeer
    cases hxPeer
    rw [hx.exchange, if_neg fun hzero => hpeer pub hpub ⟨_, hzero⟩]
    exact contained_ok _

/-! ### A low-order key -/

namespace LowOrderExample

open StandIn (encapCoins)

def P : Primitives := StandIn.primitives StandIn.rfc7748 []

/-- A public key of the right length whose X25519 half is the point with `u = 0`. -/
def pub : BytesN publicKeyLen := (BytesN.zero x25519PubLen).append (.zero mlkemPubLen)

theorem shared_zero : Rfc7748.x25519 encapCoins.ephemeral pub.left = .zero 32 := by decide +kernel

/-- With the low-order key not both functions are contained, with a key of the wrong type both are. -/
theorem contained_kem_iff_runs :
    ¬((∀ coins, Contained [.pqKemError] (hybridEncap P coins (.bytes pub) hkdfInfo)) ∧
        Contained [.pqKemError] (hybridDecap P .none (.bytes []) hkdfInfo)) ∧
      (∀ coins, Contained [.pqKemError] (hybridEncap P coins .none hkdfInfo)) ∧
        Contained [.pqKemError] (hybridDecap P .none (.bytes []) hkdfInfo) := by
  constructor
  · intro h
    have hnot := (contained_kem_iff rfl StandIn.oqs_opens StandIn.rfc7748_checksZero _ _ _ _).mp h
    exact hnot pub rfl ⟨_, shared_zero⟩
  · refine (contained_kem_iff rfl StandIn.oqs_opens StandIn.rfc7748_checksZero _ _ _ _).mpr ?_
    intro _ h
    cases h

/-- To the low-order key the encapsulation raises pyca's `ValueError`, which is no `PqKemError`. -/
theorem exists_escaping_error :
    hybridEncap P encapCoins (.bytes pub) hkdfInfo = .error ⟨.valueError, [.lib]⟩ ∧
      ¬Contained [.pqKemError] (hybridEncap P encapCoins (.bytes pub) hkdfInfo) := by
  have hraises : hybridEncap P encapCoins (.bytes pub) hkdfInfo = .error ⟨.valueError, [.lib]⟩ :=
    hybridEncap_zero rfl StandIn.rfc7748_checksZero rfl shared_zero hkdfInfo
  refine ⟨hraises, ?_⟩
  rw [hraises]
  exact fun h => Bool.false_ne_true h.of_error

end LowOrderExample

end Pqkem
end SkPqc
