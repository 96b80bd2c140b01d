import SkPqc.Proof.KemLegs

/-!
# Changed KEM ciphertexts

`combine` hashes the two leg secrets and nothing else, so a changed ciphertext goes unnoticed exactly
when both legs still compute the same secrets. ML-KEM never does on a changed ciphertext. X25519
does when the 32 bytes are replaced by an equivalent public value (RFC 7748, section 7), and flipping
the top bit of the last byte is always such a replacement.
-/

namespace SkPqc

open Wire Pqkem

/-- Two public values that give the same secret with every private key. -/
def X25519.Equivalent (X : X25519) (u u' : BytesN 32) : Prop := ∀ k, X.exchange k u = X.exchange k u'

namespace Pqkem

/-- Another ciphertext does not decapsulate to the sender's secret exactly when the ML-KEM halves
differ or the X25519 halves are not equivalent. -/
theorem hybridDecap_ne_iff {P : Primitives} (hP : P.KemCorrect) {priv : BytesN privateKeyLen}
    {pub : BytesN publicKeyLen} (hkey : IsKeypair P priv pub) {coins : EncapCoins} {info : Bytes}
    {ct : BytesN ciphertextLen} {ss : BytesN 32} (hencap : hybridEncap P coins (.bytes pub) info = .ok (ct, ss))
    {ct' : BytesN ciphertextLen}
    (hmlkem : ∀ oqs m m', P.importOqs = .ok oqs → ct'.right ≠ ct.right →
      mlkemLeg oqs priv.right ct.right = .ok m → mlkemLeg oqs priv.right ct'.right = .ok m' → m' ≠ m)
    (hx25519 : P.x25519.exchange priv.left ct.left = P.x25519.exchange priv.left ct'.left →
      P.x25519.Equivalent ct.left ct'.left)
    (hhkdf : Set.InjOn P.hkdf (decapInputs P priv info ct ∪ decapInputs P priv info ct')) :
    hybridDecap P (.bytes ct') (.bytes priv) info ≠ .ok ss ↔
      ct'.right ≠ ct.right ∨ ¬P.x25519.Equivalent ct.left ct'.left := by
  obtain ⟨oqs, xSs, mlkemSs, hoqs, hx, hm, rfl⟩ := legs_of_hybridEncap hP hkey hencap
  have hinj : Set.InjOn P.hkdf ({combineInput xSs mlkemSs info} ∪ decapInputs P priv info ct') := by
    refine hhkdf.mono (Set.union_subset_union_left _ ?_)
    exact Set.singleton_subset_iff.mpr ⟨oqs, xSs, mlkemSs, hoqs, hx, hm, rfl⟩
  rw [ne_eq, hybridDecap_eq_combine_iff hP hoqs (length_x25519Leg hP hx) hinj, eq_self, and_true, ← not_and_or,
    not_iff_not]
  rw [x25519Leg_eq_exchange hP] at hx ⊢
  constructor
  · rintro ⟨hx', hm'⟩
    refine ⟨?_, hx25519 (hx.trans hx'.symm)⟩
    by_contra hct
    exact hmlkem oqs mlkemSs mlkemSs hoqs hct hm hm' rfl
  · rintro ⟨hct, hequiv⟩
    exact ⟨(hequiv priv.left).symm.trans hx, hct ▸ hm⟩

/-! ### The top bit of the X25519 half -/

namespace Tamper

open StandIn (aliceCoins encapCoins)

/-- The ciphertext with the top bit of its X25519 half flipped. -/
def flipTopBit (c : BytesN ciphertextLen) : BytesN ciphertextLen :=
  let xEphPub : BytesN x25519PubLen := c.left
  let mlkemCt : BytesN mlkemCtLen := c.right
  (Rfc7748.flipTopBit xEphPub).append mlkemCt

theorem flipTopBit_left (c : BytesN ciphertextLen) :
    ((flipTopBit c).left : BytesN x25519PubLen) = Rfc7748.flipTopBit c.left :=
  BytesN.left_append _ _

theorem flipTopBit_right (c : BytesN ciphertextLen) : ((flipTopBit c).right : BytesN mlkemCtLen) = c.right :=
  BytesN.right_append _ _

theorem flipTopBit_ne (c : BytesN ciphertextLen) : flipTopBit c ≠ c := by
  intro h
  have hleft := flipTopBit_left c
  rw [h] at hleft
  exact Rfc7748.flipTopBit_ne _ hleft.symm

/-- Sums decode a public value as RFC 7748 does. -/
theorem exchange_flipTopBit (c : BytesN ciphertextLen) : StandIn.sums.Equivalent c.left (flipTopBit c).left := by
  intro k
  rw [flipTopBit_left]
  simp only [StandIn.sums, Rfc7748.decodeUCoordinate_flipTopBit]

theorem decapInputs_flipTopBit (priv : BytesN privateKeyLen) (info : Bytes) (c : BytesN ciphertextLen) :
    decapInputs (StandIn.primitives StandIn.sums []) priv info (flipTopBit c)
      = decapInputs (StandIn.primitives StandIn.sums []) priv info c := by
  have hx : x25519Leg (StandIn.primitives StandIn.sums []) priv.left (flipTopBit c).left
      = x25519Leg (StandIn.primitives StandIn.sums []) priv.left c.left := (exchange_flipTopBit c priv.left).symm
  rw [decapInputs, decapInputs, hx, flipTopBit_right]

theorem injOn_flipTopBit (priv : BytesN privateKeyLen) (info : Bytes) (c : BytesN ciphertextLen) :
    Set.InjOn (StandIn.primitives StandIn.sums []).hkdf
      (decapInputs (StandIn.primitives StandIn.sums []) priv info c
        ∪ decapInputs (StandIn.primitives StandIn.sums []) priv info (flipTopBit c)) := by
  rw [decapInputs_flipTopBit, Set.union_self]
  exact (decapInputs_subsingleton _ _ _ _).injOn _

/-- The ciphertext with zeros for its ML-KEM half. -/
def dropMlkem (c : BytesN ciphertextLen) : BytesN ciphertextLen :=
  let xEphPub : BytesN x25519PubLen := c.left
  xEphPub.append (.zero mlkemCtLen)

theorem dropMlkem_left (c : BytesN ciphertextLen) : ((dropMlkem c).left : BytesN x25519PubLen) = c.left :=
  BytesN.left_append _ _

theorem dropMlkem_right (c : BytesN ciphertextLen) : ((dropMlkem c).right : BytesN mlkemCtLen) = .zero mlkemCtLen :=
  BytesN.right_append _ _

/-- The stand-in rejects it implicitly. -/
theorem mlkemLeg_dropMlkem (sk : BytesN mlkemSecretLen) (c : BytesN ciphertextLen) :
    mlkemLeg StandIn.oqs sk (dropMlkem c).right = .ok (BytesN.zero 32).val := by
  have hleg : ∀ ct, mlkemLeg StandIn.oqs sk ct = StandIn.oqs.decapSecret sk.val ct.val := fun _ => rfl
  have hmark : (BytesN.zero mlkemCtLen).val.take 1 ≠ [1] := by decide
  rw [dropMlkem_right, hleg, StandIn.decapSecret_unmarked _ hmark]

theorem mlkemLeg_dropMlkem_ne {oqs : Oqs} {m m' : Bytes} (hoqs : LegsExample.P.importOqs = .ok oqs)
    (hm : mlkemLeg oqs LegsExample.alice.privateKey.right LegsExample.ct.right = .ok m)
    (hm' : mlkemLeg oqs LegsExample.alice.privateKey.right (dropMlkem LegsExample.ct).right = .ok m') : m' ≠ m := by
  cases hoqs
  cases (mlkemLeg_dropMlkem _ _).symm.trans hm'
  cases (StandIn.mlkemLeg_keypair _ aliceCoins encapCoins).symm.trans hm
  decide

theorem hybridDecap_dropMlkem :
    hybridDecap LegsExample.P (.bytes (dropMlkem LegsExample.ct)) (.bytes LegsExample.alice.privateKey) hkdfInfo
      = .ok (StandIn.foreignSecret aliceCoins encapCoins hkdfInfo) := by
  have hx := StandIn.x25519Leg_foreign [] aliceCoins encapCoins LegsExample.alice.publicKey
  exact hybridDecap_bytes_eq_ok.mpr
    ⟨StandIn.oqs, _, _, rfl, (congrArg _ (dropMlkem_left _)).trans hx, mlkemLeg_dropMlkem _ _, rfl⟩

/-- Over sums, a flipped top bit leaves the secret as it is: the condition excludes it. It admits another ML-KEM half,
and that gives another secret. -/
theorem hybridDecap_ne_iff_runs :
    hybridEncap LegsExample.P encapCoins (.bytes LegsExample.alice.publicKey) hkdfInfo
        = .ok (LegsExample.ct, LegsExample.ss) ∧
      ¬hybridDecap LegsExample.P (.bytes (flipTopBit LegsExample.ct)) (.bytes LegsExample.alice.privateKey) hkdfInfo
        ≠ .ok LegsExample.ss ∧
      hybridDecap LegsExample.P (.bytes (dropMlkem LegsExample.ct)) (.bytes LegsExample.alice.privateKey) hkdfInfo
        ≠ .ok LegsExample.ss := by
  have hencap := LegsExample.hybridEncap_alice
  have hkem : LegsExample.P.KemCorrect := StandIn.kemCorrect []
  have hkey : IsKeypair LegsExample.P LegsExample.alice.privateKey LegsExample.alice.publicKey :=
    StandIn.isKeypair [] _ aliceCoins
  have hmlkem : ((dropMlkem LegsExample.ct).right : BytesN mlkemCtLen) ≠ LegsExample.ct.right := by decide
  have hsecret : LegsExample.ss ≠ StandIn.foreignSecret aliceCoins encapCoins hkdfInfo := by decide
  refine ⟨hencap, ?_, ?_⟩
  · rw [hybridDecap_ne_iff hkem hkey hencap (fun _ _ _ _ hne => absurd (flipTopBit_right _) hne)
      (fun _ => exchange_flipTopBit LegsExample.ct) (injOn_flipTopBit _ _ _)]
    rintro (hne | hnot)
    · exact hne (flipTopBit_right _)
    · exact hnot (exchange_flipTopBit LegsExample.ct)
  · refine (hybridDecap_ne_iff hkem hkey hencap (fun _ _ _ hoqs _ hm hm' => mlkemLeg_dropMlkem_ne hoqs hm hm')
      (fun _ k => ?_) ?_).mpr (.inl hmlkem)
    · rw [dropMlkem_left]
    · exact injOn_decapInputs (hybridDecap_hybridEncap hkem hkey hencap) hybridDecap_dropMlkem hsecret

def P : Primitives := StandIn.primitives StandIn.rfc7748 []

/-- With RFC 7748 a flipped top bit changes nothing that a decapsulation computes. -/
theorem hybridDecap_flipTopBit {c : BytesN ciphertextLen} {priv : BytesN privateKeyLen} {info : Bytes}
    {ss : BytesN 32} (h : hybridDecap P (.bytes c) (.bytes priv) info = .ok ss) :
    hybridDecap P (.bytes (flipTopBit c)) (.bytes priv) info = .ok ss := by
  refine (hybridDecap_congr ?_ (flipTopBit_right _)).mpr h
  show StandIn.rfc7748.exchange priv.left (flipTopBit c).left = StandIn.rfc7748.exchange priv.left c.left
  rw [flipTopBit_left]
  simp only [StandIn.rfc7748, Rfc7748.x25519_congr (Rfc7748.decodeUCoordinate_flipTopBit _)]

def keys : HybridKeyPair := StandIn.keypair StandIn.rfc7748 aliceCoins

def ct : BytesN ciphertextLen := StandIn.encapCt StandIn.rfc7748 encapCoins keys.publicKey

def secret : BytesN 32 := Rfc7748.x25519 aliceCoins.seed (Rfc7748.publicKey encapCoins.ephemeral)

/-- It is the same on both sides, and not zero. -/
theorem secret_agree :
    Rfc7748.x25519 encapCoins.ephemeral (Rfc7748.publicKey aliceCoins.seed) = secret ∧ secret ≠ .zero 32 := by
  decide +kernel

theorem exchange_eq_ok {k u s : BytesN 32} (h : Rfc7748.x25519 k u = s) (hne : s ≠ .zero 32) :
    StandIn.rfc7748.exchange k u = .ok s.val := by
  simp only [StandIn.rfc7748, h, if_neg hne]

/-- A ciphertext with the top bit of its X25519 half flipped is another one with the same secret. -/
theorem exists_tampered_hybridDecap_eq :
    hybridKeypair P aliceCoins = .ok keys ∧
      ∃ ss, hybridEncap P encapCoins (.bytes keys.publicKey) hkdfInfo = .ok (ct, ss) ∧ flipTopBit ct ≠ ct ∧
        hybridDecap P (.bytes (flipTopBit ct)) (.bytes keys.privateKey) hkdfInfo = .ok ss := by
  have hkeys : hybridKeypair P aliceCoins = .ok keys :=
    hybridKeypair_eq_ok.mpr ⟨StandIn.oqs, _, _, rfl, rfl, rfl, rfl⟩
  obtain ⟨hagree, hne⟩ := secret_agree
  have hsend : StandIn.rfc7748.exchange encapCoins.ephemeral keys.publicKey.left = .ok secret.val :=
    exchange_eq_ok ((congrArg _ (BytesN.left_append _ _)).trans hagree) hne
  have hreceive : x25519Leg P keys.privateKey.left ct.left = .ok secret.val :=
    exchange_eq_ok (congrArg₂ _ (BytesN.left_append _ _) (BytesN.left_append _ _)) hne
  have hencap := StandIn.hybridEncap_primitives [] StandIn.rfc7748 rfl hsend hkdfInfo
  refine ⟨hkeys, _, hencap, flipTopBit_ne ct, hybridDecap_flipTopBit ?_⟩
  exact hybridDecap_bytes_eq_ok.mpr ⟨StandIn.oqs, _, _, rfl, hreceive,
    StandIn.mlkemLeg_keypair _ aliceCoins encapCoins, rfl⟩

end Tamper

end Pqkem
end SkPqc
