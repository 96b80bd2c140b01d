import SkPqc.Proof.StandIn

/-!
# The two legs of a secret

`combine` feeds HKDF the X25519 secret, the ML-KEM secret and the `info`, with nothing between the two
secrets. The first is always 32 bytes long, so the input shows all three (`combineInput_inj`), and a
decapsulation gives the sender's secret exactly when all three are the sender's.
-/

namespace SkPqc
namespace Pqkem

open Wire

theorem combineInput_inj {xSs xSs' mlkemSs mlkemSs' info info' : Bytes} (hlen : xSs.length = xSs'.length) :
    combineInput xSs mlkemSs info = combineInput xSs' mlkemSs' info' ↔
      xSs = xSs' ∧ mlkemSs = mlkemSs' ∧ info = info' := by
  constructor
  · intro h
    obtain ⟨hx, hm⟩ := List.append_inj (congrArg HkdfInput.ikm h) hlen
    exact ⟨hx, hm, congrArg HkdfInput.info h⟩
  · rintro ⟨rfl, rfl, rfl⟩
    rfl

theorem x25519Leg_eq_exchange {P : Primitives} (hP : P.KemCorrect) (seed : BytesN x25519SeedLen)
    (u : BytesN x25519PubLen) : x25519Leg P seed u = P.x25519.exchange seed u := by
  rw [x25519Leg, hP.x25519.fromPrivateBytes, ok_bind, hP.x25519.fromPublicBytes, ok_bind]

theorem length_x25519Leg {P : Primitives} (hP : P.KemCorrect) {seed : BytesN x25519SeedLen} {u : BytesN x25519PubLen}
    {xSs : Bytes} (h : x25519Leg P seed u = .ok xSs) : xSs.length = 32 := by
  rw [x25519Leg_eq_exchange hP] at h
  exact hP.x25519.length_exchange _ _ _ h

/-- What the decapsulation of `ct` under `priv` feeds HKDF. -/
def decapInputs (P : Primitives) (priv : BytesN privateKeyLen) (info : Bytes) (ct : BytesN ciphertextLen) :
    Set HkdfInput :=
  {i | ∃ oqs xSs mlkemSs, P.importOqs = .ok oqs ∧ x25519Leg P priv.left ct.left = .ok xSs ∧
    mlkemLeg oqs priv.right ct.right = .ok mlkemSs ∧ i = combineInput xSs mlkemSs info}

theorem decapInputs_subsingleton (P : Primitives) (priv : BytesN privateKeyLen) (info : Bytes)
    (ct : BytesN ciphertextLen) : (decapInputs P priv info ct).Subsingleton := by
  rintro _ ⟨oqs, xSs, m, hoqs, hx, hm, rfl⟩ _ ⟨oqs', xSs', m', hoqs', hx', hm', rfl⟩
  cases hoqs.symm.trans hoqs'
  cases hx.symm.trans hx'
  cases hm.symm.trans hm'
  rfl

theorem hkdf_of_mem_decapInputs {P : Primitives} {priv : BytesN privateKeyLen} {info : Bytes}
    {ct : BytesN ciphertextLen} {ss : BytesN 32} (h : hybridDecap P (.bytes ct) (.bytes priv) info = .ok ss)
    {i : HkdfInput} (hi : i ∈ decapInputs P priv info ct) : P.hkdf i = ss := by
  obtain ⟨oqs, xSs, mlkemSs, hoqs, hx, hm, rfl⟩ := hi
  have hdecap : hybridDecap P (.bytes ct) (.bytes priv) info = .ok (combine P xSs mlkemSs info) :=
    hybridDecap_bytes_eq_ok.mpr ⟨oqs, xSs, mlkemSs, hoqs, hx, hm, rfl⟩
  exact Except.ok.inj (hdecap.symm.trans h)

/-- Two decapsulations with different secrets show no collision. -/
theorem injOn_decapInputs {P : Primitives} {priv priv' : BytesN privateKeyLen} {info info' : Bytes}
    {ct ct' : BytesN ciphertextLen} {ss ss' : BytesN 32}
    (h : hybridDecap P (.bytes ct) (.bytes priv) info = .ok ss)
    (h' : hybridDecap P (.bytes ct') (.bytes priv') info' = .ok ss') (hne : ss ≠ ss') :
    Set.InjOn P.hkdf (decapInputs P priv info ct ∪ decapInputs P priv' info' ct') := by
  rintro i (hi | hi) j (hj | hj) heq
  · exact decapInputs_subsingleton P priv info ct hi hj
  · rw [hkdf_of_mem_decapInputs h hi, hkdf_of_mem_decapInputs h' hj] at heq
    exact absurd heq hne
  · rw [hkdf_of_mem_decapInputs h' hi, hkdf_of_mem_decapInputs h hj] at heq
    exact absurd heq.symm hne
  · exact decapInputs_subsingleton P priv' info' ct' hi hj

/-- A decapsulation, of whatever, gives the secret of two leg secrets and a label exactly when they are its own. -/
theorem hybridDecap_eq_combine_iff {P : Primitives} (hP : P.KemCorrect) {oqs : Oqs} (hoqs : P.importOqs = .ok oqs)
    {xSs mlkemSs info : Bytes} (hlen : xSs.length = 32) {ct : BytesN ciphertextLen} {priv : BytesN privateKeyLen}
    {info' : Bytes} (hhkdf : Set.InjOn P.hkdf ({combineInput xSs mlkemSs info} ∪ decapInputs P priv info' ct)) :
    hybridDecap P (.bytes ct) (.bytes priv) info' = .ok (combine P xSs mlkemSs info) ↔
      x25519Leg P priv.left ct.left = .ok xSs ∧ mlkemLeg oqs priv.right ct.right = .ok mlkemSs ∧ info' = info := by
  constructor
  · intro hdecap
    obtain ⟨oqs', xSs', mlkemSs', hoqs', hx, hm, hss⟩ := hybridDecap_bytes_eq_ok.mp hdecap
    obtain rfl : oqs = oqs' := Except.ok.inj (hoqs.symm.trans hoqs')
    have hinput := hhkdf (.inl rfl) (.inr ⟨oqs, xSs', mlkemSs', hoqs, hx, hm, rfl⟩) hss
    obtain ⟨rfl, rfl, rfl⟩ := (combineInput_inj (hlen.trans (length_x25519Leg hP hx).symm)).mp hinput
    exact ⟨hx, hm, rfl⟩
  · rintro ⟨hx, hm, rfl⟩
    exact hybridDecap_bytes_eq_ok.mpr ⟨oqs, xSs, mlkemSs, hoqs, hx, hm, rfl⟩

/-- A ciphertext is 1120 bytes and a secret 32, the keypair's own decapsulation gives the secret, and any other
decapsulation that returns gives it exactly when both legs and the label are the sender's. -/
theorem hybridDecap_eq_iff {P : Primitives} (hP : P.KemCorrect) {priv : BytesN privateKeyLen}
    {pub : BytesN publicKeyLen} (hkey : IsKeypair P priv pub) {coins : EncapCoins} {info : Bytes}
    {ct : BytesN ciphertextLen} {ss : BytesN 32} (hencap : hybridEncap P coins (.bytes pub) info = .ok (ct, ss)) :
    ct.val.length = 1120 ∧ ss.val.length = 32 ∧ hybridDecap P (.bytes ct) (.bytes priv) info = .ok ss ∧
      ∃ oqs xSs mlkemSs, P.importOqs = .ok oqs ∧ P.x25519.exchange coins.ephemeral pub.left = .ok xSs ∧
        oqs.encapSecret coins.mlkem (pub.right : BytesN mlkemPubLen) = .ok ((ct.right : BytesN mlkemCtLen), mlkemSs) ∧
        ∀ (ct' : BytesN ciphertextLen) (priv' : BytesN privateKeyLen) (info' : Bytes) (ss' : BytesN 32),
          hybridDecap P (.bytes ct') (.bytes priv') info' = .ok ss' →
          Set.InjOn P.hkdf ({combineInput xSs mlkemSs info} ∪ decapInputs P priv' info' ct') →
          (ss' = ss ↔ x25519Leg P priv'.left ct'.left = .ok xSs ∧ mlkemLeg oqs priv'.right ct'.right = .ok mlkemSs ∧
            info' = info) := by
  refine ⟨ct.length_val, ss.length_val, hybridDecap_hybridEncap hP hkey hencap, ?_⟩
  obtain ⟨oqs, pub', xPeer, xSs, mlkemCt, mlkemSs, hoqs, hpub, hpeer, hx, -, hm, rfl, rfl⟩ :=
    hybridEncap_eq_ok.mp hencap
  obtain rfl : pub = pub' := BytesN.ext (Option.some.inj hpub)
  rw [hP.x25519.fromPublicBytes] at hpeer
  cases hpeer
  refine ⟨oqs, xSs, mlkemSs, hoqs, hx, ?_, ?_⟩
  · rw [BytesN.right_append]
    exact hm
  · intro ct' priv' info' ss' hdecap hhkdf
    rw [← hybridDecap_eq_combine_iff hP hoqs (hP.x25519.length_exchange _ _ _ hx) hhkdf, hdecap, Except.ok.injEq]

/-! ### Two keys on one ciphertext -/

namespace LegsExample

open StandIn (aliceCoins bobCoins encapCoins)

def P : Primitives := StandIn.primitives StandIn.sums []

def alice : HybridKeyPair := StandIn.keypair StandIn.sums aliceCoins

def bob : HybridKeyPair := StandIn.keypair StandIn.sums bobCoins

def ct : BytesN ciphertextLen := StandIn.encapCt StandIn.sums encapCoins alice.publicKey

def ss : BytesN 32 := StandIn.sumSecret encapCoins alice.publicKey hkdfInfo

def ss' : BytesN 32 := StandIn.foreignSecret bobCoins encapCoins hkdfInfo

theorem ss_ne : ss' ≠ ss := by decide

theorem hybridEncap_alice : hybridEncap P encapCoins (.bytes alice.publicKey) hkdfInfo = .ok (ct, ss) :=
  StandIn.hybridEncap_sums [] _ _ _

theorem hybridDecap_bob : hybridDecap P (.bytes ct) (.bytes bob.privateKey) hkdfInfo = .ok ss' :=
  StandIn.hybridDecap_foreign [] bobCoins encapCoins alice.publicKey hkdfInfo (by decide)

/-- Alice's key recovers the secret; Bob's recovers another, so one of the two legs is not the sender's. -/
theorem hybridDecap_eq_iff_run : hybridDecap P (.bytes ct) (.bytes alice.privateKey) hkdfInfo = .ok ss ∧
    ∃ oqs xSs mlkemSs, P.importOqs = .ok oqs ∧
      ¬(x25519Leg P bob.privateKey.left ct.left = .ok xSs ∧
        mlkemLeg oqs bob.privateKey.right ct.right = .ok mlkemSs) := by
  obtain ⟨-, -, hown, oqs, xSs, mlkemSs, hoqs, hx, hm, hiff⟩ := hybridDecap_eq_iff (StandIn.kemCorrect [])
    (StandIn.isKeypair [] StandIn.sums aliceCoins) hybridEncap_alice
  have hsent : P.hkdf (combineInput xSs mlkemSs hkdfInfo) = ss := by
    cases hoqs
    obtain ⟨-, rfl⟩ := Prod.mk.inj (Except.ok.inj hm)
    rw [← Except.ok.inj hx]
    rfl
  have hinj : Set.InjOn P.hkdf ({combineInput xSs mlkemSs hkdfInfo} ∪ decapInputs P bob.privateKey hkdfInfo ct) := by
    rintro i (rfl | hi) j (rfl | hj) h
    · rfl
    · rw [hsent, hkdf_of_mem_decapInputs hybridDecap_bob hj] at h
      exact absurd h.symm ss_ne
    · rw [hsent, hkdf_of_mem_decapInputs hybridDecap_bob hi] at h
      exact absurd h ss_ne
    · exact decapInputs_subsingleton P bob.privateKey hkdfInfo ct hi hj
  refine ⟨hown, oqs, xSs, mlkemSs, hoqs, fun hlegs => ss_ne ?_⟩
  exact (hiff _ _ _ _ hybridDecap_bob hinj).mpr ⟨hlegs.1, hlegs.2, rfl⟩

end LegsExample

end Pqkem
end SkPqc
