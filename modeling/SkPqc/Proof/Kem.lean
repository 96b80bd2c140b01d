import SkPqc.Proof.Assumptions

/-!
# The hybrid KEM, call by call

One lemma for each function says exactly when it returns and what (`…_eq_ok`); the rest of the
development uses these and never unfolds the functions. `hybridDecap_hybridEncap` is the round trip.
-/

namespace SkPqc
namespace Pqkem

open Wire

/-- The X25519 secret a decapsulation computes. -/
def x25519Leg (P : Primitives) (seed : BytesN x25519SeedLen) (ephPub : BytesN x25519PubLen) : Py Bytes := do
  let xPriv ← P.x25519.fromPrivateBytes seed
  let xEph ← P.x25519.fromPublicBytes ephPub
  P.x25519.exchange xPriv xEph

/-- The ML-KEM secret a decapsulation computes. -/
def mlkemLeg (oqs : Oqs) (secret : BytesN mlkemSecretLen) (ct : BytesN mlkemCtLen) : Py Bytes := do
  oqs.keyEncapsulation (some secret.val)
  oqs.decapSecret secret.val ct.val

theorem hybridKeypair_eq_ok {P : Primitives} {coins : KeypairCoins} {kp : HybridKeyPair} :
    hybridKeypair P coins = .ok kp ↔
      ∃ (oqs : Oqs) (mlkemPub : BytesN mlkemPubLen) (mlkemSecret : BytesN mlkemSecretLen),
        P.importOqs = .ok oqs ∧ oqs.keyEncapsulation none = .ok () ∧
        oqs.generateKeypair coins.mlkem = .ok (mlkemPub.val, mlkemSecret.val) ∧
        kp = { publicKey := (P.x25519.publicKey coins.seed).append mlkemPub
               privateKey := coins.seed.append mlkemSecret } := by
  simp only [hybridKeypair, bind_eq_ok, importOqs_eq_ok, expectLen_eq_ok, Prod.exists]
  constructor
  · rintro ⟨oqs, hoqs, ⟨⟩, hopen, pk, sk, hgen, pk', hpk, sk', hsk, hkp⟩
    cases hpk
    cases hsk
    exact ⟨oqs, pk', sk', hoqs, hopen, hgen, (Except.ok.inj hkp).symm⟩
  · rintro ⟨oqs, pk, sk, hoqs, hopen, hgen, rfl⟩
    exact ⟨oqs, hoqs, (), hopen, pk.val, sk.val, hgen, pk, rfl, sk, rfl, rfl⟩

theorem hybridEncap_eq_ok {P : Primitives} {coins : EncapCoins} {peer : PyVal} {info : Bytes}
    {ct : BytesN ciphertextLen} {ss : BytesN 32} :
    hybridEncap P coins peer info = .ok (ct, ss) ↔
      ∃ (oqs : Oqs) (pub : BytesN publicKeyLen) (xPeer : BytesN 32) (xSs : Bytes) (mlkemCt : BytesN mlkemCtLen)
          (mlkemSs : Bytes), P.importOqs = .ok oqs ∧ peer.data? = some pub.val ∧
        P.x25519.fromPublicBytes pub.left = .ok xPeer ∧ P.x25519.exchange coins.ephemeral xPeer = .ok xSs ∧
        oqs.keyEncapsulation none = .ok () ∧
        oqs.encapSecret coins.mlkem pub.right.val = .ok (mlkemCt.val, mlkemSs) ∧
        ct = (P.x25519.publicKey coins.ephemeral).append mlkemCt ∧ ss = combine P xSs mlkemSs info := by
  simp only [hybridEncap, bind_eq_ok, importOqs_eq_ok, expectLen_eq_ok, Prod.exists,
    tryExcept_raise_eq_ok]
  constructor
  · rintro ⟨oqs, hoqs, pub, hpub, xPeer, hpeer, xSs, hx, ⟨⟩, hopen, mct, mss, hencap, mct', hmct, hret⟩
    cases hmct
    cases hret
    exact ⟨oqs, pub, xPeer, xSs, mct', mss, hoqs, hpub, hpeer, hx, hopen, hencap, rfl, rfl⟩
  · rintro ⟨oqs, pub, xPeer, xSs, mct, mss, hoqs, hpub, hpeer, hx, hopen, hencap, rfl, rfl⟩
    exact ⟨oqs, hoqs, pub, hpub, xPeer, hpeer, xSs, hx, (), hopen, mct.val, mss, hencap, mct, rfl, rfl⟩

theorem hybridDecap_eq_ok {P : Primitives} {ciphertext privateKey : PyVal} {info : Bytes} {ss : BytesN 32} :
    hybridDecap P ciphertext privateKey info = .ok ss ↔
      ∃ (oqs : Oqs) (ct : BytesN ciphertextLen) (priv : BytesN privateKeyLen) (xSs mlkemSs : Bytes),
        P.importOqs = .ok oqs ∧ ciphertext.data? = some ct.val ∧ privateKey.data? = some priv.val ∧
        x25519Leg P priv.left ct.left = .ok xSs ∧
        mlkemLeg oqs priv.right ct.right = .ok mlkemSs ∧ ss = combine P xSs mlkemSs info := by
  simp only [hybridDecap, bind_eq_ok, importOqs_eq_ok, expectLen_eq_ok, tryExcept_raise_eq_ok]
  constructor
  · rintro ⟨oqs, hoqs, ct, hct, priv, hpriv, xSs, ⟨a, ha, b, hb, hx⟩, ⟨⟩, hopen, mss, hm, hret⟩
    cases hret
    refine ⟨oqs, ct, priv, xSs, mss, hoqs, hct, hpriv, ?_, ?_, rfl⟩
    · rw [x25519Leg, ha, ok_bind, hb, ok_bind, hx]
    · rw [mlkemLeg, hopen, ok_bind, hm]
  · rintro ⟨oqs, ct, priv, xSs, mss, hoqs, hct, hpriv, hx, hm, rfl⟩
    simp only [x25519Leg, bind_eq_ok] at hx
    simp only [mlkemLeg, bind_eq_ok] at hm
    obtain ⟨⟨⟩, hopen, hm⟩ := hm
    exact ⟨oqs, hoqs, ct, hct, priv, hpriv, xSs, hx, (), hopen, mss, hm, rfl⟩

/-- On byte strings of the right length a decapsulation is its two legs. -/
theorem hybridDecap_bytes_eq_ok {P : Primitives} {ct : BytesN ciphertextLen} {priv : BytesN privateKeyLen}
    {info : Bytes} {ss : BytesN 32} :
    hybridDecap P (.bytes ct) (.bytes priv) info = .ok ss ↔
      ∃ oqs xSs mlkemSs, P.importOqs = .ok oqs ∧ x25519Leg P priv.left ct.left = .ok xSs ∧
        mlkemLeg oqs priv.right ct.right = .ok mlkemSs ∧ ss = combine P xSs mlkemSs info := by
  rw [hybridDecap_eq_ok]
  constructor
  · rintro ⟨oqs, ct', priv', xSs, mss, hoqs, hct, hpriv, hx, hm, rfl⟩
    obtain rfl : ct = ct' := BytesN.ext (Option.some.inj hct)
    obtain rfl : priv = priv' := BytesN.ext (Option.some.inj hpriv)
    exact ⟨oqs, xSs, mss, hoqs, hx, hm, rfl⟩
  · rintro ⟨oqs, xSs, mss, hoqs, hx, hm, rfl⟩
    exact ⟨oqs, ct, priv, xSs, mss, hoqs, rfl, rfl, hx, hm, rfl⟩

/-- The ciphertext counts only through the X25519 secret and its ML-KEM half. -/
theorem hybridDecap_congr {P : Primitives} {ct ct' : BytesN ciphertextLen} {priv : BytesN privateKeyLen}
    (hx : x25519Leg P priv.left ct'.left = x25519Leg P priv.left ct.left) (hm : ct'.right = ct.right)
    {info : Bytes} {ss : BytesN 32} :
    hybridDecap P (.bytes ct') (.bytes priv) info = .ok ss ↔ hybridDecap P (.bytes ct) (.bytes priv) info = .ok ss := by
  rw [hybridDecap_bytes_eq_ok, hybridDecap_bytes_eq_ok, hx, hm]

/-- The legs of an encapsulation to a generated public key are the ones its private key computes. -/
theorem legs_of_hybridEncap {P : Primitives} (hP : P.KemCorrect) {priv : BytesN privateKeyLen}
    {pub : BytesN publicKeyLen} (hkey : IsKeypair P priv pub) {coins : EncapCoins} {info : Bytes}
    {ct : BytesN ciphertextLen} {ss : BytesN 32} (hencap : hybridEncap P coins (.bytes pub) info = .ok (ct, ss)) :
    ∃ oqs xSs mlkemSs, P.importOqs = .ok oqs ∧ x25519Leg P priv.left ct.left = .ok xSs ∧
      mlkemLeg oqs priv.right ct.right = .ok mlkemSs ∧ ss = combine P xSs mlkemSs info := by
  obtain ⟨kcoins, hkey⟩ := hkey
  obtain ⟨oqs, mlkemPub, mlkemSecret, hoqs, -, hgen, hkp⟩ := hybridKeypair_eq_ok.mp hkey
  cases hkp
  obtain ⟨oqs', pub', xPeer, xSs, mct, mss, hoqs', hpub, hpeer, hx, -, hmencap, rfl, rfl⟩ :=
    hybridEncap_eq_ok.mp hencap
  obtain rfl : oqs = oqs' := Except.ok.inj (hoqs.symm.trans hoqs')
  obtain rfl := BytesN.ext (Option.some.inj hpub)
  rw [BytesN.left_append, hP.x25519.fromPublicBytes] at hpeer
  cases hpeer
  rw [BytesN.right_append] at hmencap
  have hO := hP.oqs oqs hoqs
  refine ⟨oqs, xSs, mss, hoqs, ?_, ?_, rfl⟩
  · rw [BytesN.left_append, BytesN.left_append, x25519Leg, hP.x25519.fromPrivateBytes, ok_bind,
      hP.x25519.fromPublicBytes, ok_bind]
    exact hP.x25519.agree _ _ _ hx
  · rw [BytesN.right_append, BytesN.right_append, mlkemLeg, hO.opens _ _ _ hgen, ok_bind]
    exact hO.decap_encap _ _ _ _ _ _ hgen hmencap

theorem hybridDecap_hybridEncap {P : Primitives} (hP : P.KemCorrect) {priv : BytesN privateKeyLen}
    {pub : BytesN publicKeyLen} (hkey : IsKeypair P priv pub) {coins : EncapCoins} {info : Bytes}
    {ct : BytesN ciphertextLen} {ss : BytesN 32} (hencap : hybridEncap P coins (.bytes pub) info = .ok (ct, ss)) :
    hybridDecap P (.bytes ct) (.bytes priv) info = .ok ss :=
  hybridDecap_bytes_eq_ok.mpr (legs_of_hybridEncap hP hkey hencap)

/-- An encapsulation to a generated public key returns. -/
theorem hybridEncap_returns (hP : P.KemCorrect) (hreturns : P.KemReturns) {priv : BytesN privateKeyLen}
    {pub : BytesN publicKeyLen} (hkey : IsKeypair P priv pub) (coins : EncapCoins) (info : Bytes) :
    ∃ ct ss, hybridEncap P coins (.bytes pub) info = .ok (ct, ss) := by
  obtain ⟨kcoins, hkey⟩ := hkey
  obtain ⟨oqs, pk, sk, hoqs, -, hgen, hkp⟩ := hybridKeypair_eq_ok.mp hkey
  cases hkp
  obtain ⟨xSs, hx⟩ := hreturns.exchange coins.ephemeral kcoins.seed
  obtain ⟨mlkemCt, mlkemSs, hm⟩ := hreturns.encap oqs kcoins.mlkem coins.mlkem pk.val sk.val hoqs hgen
  refine ⟨_, _, hybridEncap_eq_ok.mpr ⟨oqs, _, P.x25519.publicKey kcoins.seed, xSs, mlkemCt, mlkemSs, hoqs, rfl, ?_, hx,
    hreturns.fresh oqs hoqs, ?_, rfl, rfl⟩⟩
  · rw [BytesN.left_append, hP.x25519.fromPublicBytes]
  · rw [BytesN.right_append, hm]

theorem data?_of_hybridEncap {P : Primitives} {coins : EncapCoins} {peer : PyVal} {info : Bytes}
    {ct : BytesN ciphertextLen} {ss : BytesN 32} (hencap : hybridEncap P coins peer info = .ok (ct, ss)) :
    ∃ pub : BytesN publicKeyLen, peer.data? = some pub.val := by
  obtain ⟨-, pub, -, -, -, -, -, hpub, -⟩ := hybridEncap_eq_ok.mp hencap
  exact ⟨pub, hpub⟩

/-- A private key has one public key. -/
theorem publicKey_unique {P : Primitives} (hP : P.KemCorrect) {priv : BytesN privateKeyLen}
    {pub pub' : BytesN publicKeyLen} (h : IsKeypair P priv pub) (h' : IsKeypair P priv pub') : pub = pub' := by
  obtain ⟨coins, hkey⟩ := h
  obtain ⟨coins', hkey'⟩ := h'
  obtain ⟨oqs, pk, sk, hoqs, -, hgen, hkp⟩ := hybridKeypair_eq_ok.mp hkey
  obtain ⟨oqs', pk', sk', hoqs', -, hgen', hkp'⟩ := hybridKeypair_eq_ok.mp hkey'
  obtain rfl : oqs = oqs' := Except.ok.inj (hoqs.symm.trans hoqs')
  simp only [HybridKeyPair.mk.injEq] at hkp hkp'
  obtain ⟨rfl, rfl⟩ := hkp
  obtain ⟨rfl, hpriv⟩ := hkp'
  have hseed : coins.seed = coins'.seed := by simpa using congrArg BytesN.left hpriv
  have hsecret : sk = sk' := by simpa using congrArg BytesN.right hpriv
  subst hsecret
  have hpk : pk = pk' := BytesN.ext ((hP.oqs oqs hoqs).publicKey_unique _ _ _ _ _ hgen hgen')
  rw [hseed, hpk]

end Pqkem
end SkPqc
