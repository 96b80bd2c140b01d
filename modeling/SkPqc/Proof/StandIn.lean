import SkPqc.Proof.Kem
import SkPqc.Wire.Rfc7748

/-!
# Stand-in primitives

Concrete primitives that keep every law of `Assumptions`, to run the code on: closed examples apply
the results to them. They are simple, not secure. The X25519 leg is either RFC 7748 itself
(`rfc7748`) or a Diffie-Hellman of sums that decodes its public values the same way (`sums`). The
ML-KEM leg answers a foreign or changed ciphertext with an implicit-rejection secret. An AES-GCM tag is
the place of (key, nonce, AAD) in a table, so it holds for nothing outside the table.
-/

namespace SkPqc
namespace StandIn

open Wire Pqkem

/-- The first `n` bytes, filled up with zeros. -/
def padTo (n : Nat) (b : Bytes) : BytesN n := ⟨(b ++ List.replicate n 0).take n, by simp⟩

theorem take_padTo {m n : Nat} {b : Bytes} (hb : b.length = m) (hmn : m ≤ n) : (padTo n b).val.take m = b := by
  rw [padTo, List.take_take, Nat.min_eq_left hmn, List.take_left' hb]

theorem padTo_self {n : Nat} (b : BytesN n) : padTo n b.val = b :=
  BytesN.ext (List.take_left' b.length_val)

/-- Filling up does not change the front of a long enough string. -/
theorem padTo_padTo {k m n : Nat} (hkm : k ≤ m) (hmn : m ≤ n) (b : Bytes) :
    padTo k (padTo n (padTo m b).val).val = padTo k (padTo m b).val := by
  have hfront : ∀ c : Bytes, k ≤ c.length → (padTo k c).val = c.take k := fun c hc =>
    List.take_append_of_le_length hc
  refine BytesN.ext ?_
  rw [hfront _ (by simp; omega), hfront _ (by simp; omega)]
  have htake := take_padTo (padTo m b).length_val hmn
  rw [← Nat.min_eq_left hkm, ← List.take_take, htake, Nat.min_eq_left hkm]

/-! ### X25519 -/

/-- RFC 7748, with pyca's check for the all-zero secret. -/
def rfc7748 : X25519 where
  publicKey := Rfc7748.publicKey
  fromPublicBytes b := .ok b
  fromPrivateBytes b := .ok b
  exchange k u :=
    let s := Rfc7748.x25519 k u
    if s = .zero 32 then raiseLib .valueError else .ok s.val

theorem rfc7748_checksZero : rfc7748.ChecksZero Rfc7748.x25519 where
  fromPublicBytes _ := rfl
  exchange _ _ := rfl

/-- The same decoding, with the sum of the two numbers for a secret. -/
def sums : X25519 where
  publicKey k := Rfc7748.encodeUCoordinate (Rfc7748.decodeUCoordinate k)
  fromPublicBytes b := .ok b
  fromPrivateBytes b := .ok b
  exchange k u := .ok (Rfc7748.encodeUCoordinate (Rfc7748.decodeUCoordinate k + Rfc7748.decodeUCoordinate u)).val

theorem sums_correct : sums.Correct where
  fromPublicBytes _ := rfl
  fromPrivateBytes _ := rfl
  agree a b s h := by
    have hdecode : ∀ k, Rfc7748.decodeUCoordinate (sums.publicKey k) = Rfc7748.decodeUCoordinate k := by
      intro k
      have hlt : Rfc7748.decodeUCoordinate k < Rfc7748.p := Nat.mod_lt _ (by decide)
      rw [sums, Rfc7748.decodeUCoordinate_encodeUCoordinate, Nat.mod_eq_of_lt hlt]
    rw [← h]
    show Except.ok (Rfc7748.encodeUCoordinate (_ + _)).val = Except.ok (Rfc7748.encodeUCoordinate (_ + _)).val
    rw [hdecode, hdecode, Nat.add_comm]
  length_exchange k u s h := by
    cases h
    exact BytesN.length_val _

/-! ### ML-KEM -/

/-- The secret of an encapsulation: a mark, random bytes, and the front of the public key. -/
def seed (coins pk : Bytes) : BytesN 32 :=
  ⟨1 :: ((padTo 15 coins).val ++ (padTo 16 pk).val), by simp⟩

def oqs : Oqs where
  keyEncapsulation _ := .ok ()
  generateKeypair coins :=
    let pk := padTo mlkemPubLen coins
    .ok (pk.val, (padTo mlkemSecretLen pk.val).val)
  encapSecret coins pk := .ok ((padTo mlkemCtLen (seed coins pk).val).val, (seed coins pk).val)
  decapSecret sk ct :=
    if ct = (padTo mlkemCtLen (ct.take 32)).val ∧ ct.take 1 = [1] ∧ slice ct 16 32 = (padTo 16 sk).val then
      .ok (ct.take 32)
    else .ok (BytesN.zero 32).val

/-- A ciphertext carries the front of the public key it was made to. -/
theorem slice_encap (coins pk : Bytes) :
    slice (padTo mlkemCtLen (seed coins pk).val).val 16 32 = (padTo 16 pk).val := by
  rw [slice, take_padTo (seed coins pk).length_val (by decide), seed, List.drop_succ_cons,
    List.drop_left' (BytesN.length_val _)]

theorem decapSecret_encap (coins pk : Bytes) {sk : Bytes} (hsk : padTo 16 sk = padTo 16 pk) :
    oqs.decapSecret sk (padTo mlkemCtLen (seed coins pk).val).val = .ok (seed coins pk).val := by
  have htake : (padTo mlkemCtLen (seed coins pk).val).val.take 32 = (seed coins pk).val :=
    take_padTo (seed coins pk).length_val (by decide)
  have hone : (padTo mlkemCtLen (seed coins pk).val).val.take 1 = [1] := by
    rw [← Nat.min_eq_left (show 1 ≤ 32 by decide), ← List.take_take, htake]
    rfl
  simp only [oqs, htake, hone, slice_encap, hsk, and_self, if_true]

/-- Under a foreign key a ciphertext is rejected implicitly. -/
theorem decapSecret_foreign (coins pk : Bytes) {sk : Bytes} (hsk : padTo 16 sk ≠ padTo 16 pk) :
    oqs.decapSecret sk (padTo mlkemCtLen (seed coins pk).val).val = .ok (BytesN.zero 32).val := by
  simp only [oqs, slice_encap]
  apply if_neg
  rintro ⟨-, -, hslice⟩
  exact hsk (BytesN.ext hslice).symm

/-- So is one without the mark. -/
theorem decapSecret_unmarked (sk : Bytes) {ct : Bytes} (hmark : ct.take 1 ≠ [1]) :
    oqs.decapSecret sk ct = .ok (BytesN.zero 32).val := by
  apply if_neg
  rintro ⟨-, hone, -⟩
  exact hmark hone

theorem oqs_correct : oqs.Correct where
  opens _ _ _ _ := rfl
  decap_encap coins coins' pk sk ct ss hgen hencap := by
    cases hgen
    cases hencap
    exact decapSecret_encap _ _ (padTo_padTo (by decide) (by decide) coins)
  publicKey_unique coins coins' pk pk' sk hgen hgen' := by
    obtain ⟨rfl, hsk⟩ := Prod.mk.inj (Except.ok.inj hgen)
    obtain ⟨rfl, hsk'⟩ := Prod.mk.inj (Except.ok.inj hgen')
    have hfront : ∀ b : BytesN mlkemPubLen, (padTo mlkemSecretLen b.val).val.take mlkemPubLen = b.val :=
      fun b => take_padTo b.length_val (by decide)
    rw [← hfront (padTo mlkemPubLen coins), ← hfront (padTo mlkemPubLen coins'), hsk, hsk']
  length_decap sk ct ss h := by
    simp only [oqs] at h
    split at h
    · rename_i hct
      cases h
      rw [hct.1, List.length_take, BytesN.length_val]
      decide
    · cases h
      exact BytesN.length_val _

theorem oqs_opens : oqs.Opens where
  fresh := rfl
  withSecret _ := rfl

/-! ### The rest -/

/-- The place of a triple in the table, as a tag; `table.length` for everything outside it. -/
def tag (table : List (Bytes × Bytes × Bytes)) (t : Bytes × Bytes × Bytes) : BytesN 16 :=
  padTo 16 [UInt8.ofNat (table.idxOf t)]

/-- The two halves of a string, added bit by bit. -/
def fold (b : Bytes) : BytesN 32 :=
  ⟨List.zipWith (· ^^^ ·) (padTo 32 (b.take 32)).val (padTo 32 (b.drop 32)).val, by simp⟩

theorem fold_self (b : BytesN 32) : fold b.val = b := by
  have hzero : ∀ l : Bytes, List.zipWith (· ^^^ ·) l (List.replicate l.length 0) = l := by
    intro l
    induction l with
    | nil => rfl
    | cons x l ih => rw [List.length_cons, List.replicate_succ, List.zipWith_cons_cons, ih, UInt8.xor_zero]
  have hright : (padTo 32 (b.val.drop 32)).val = List.replicate b.val.length 0 := by
    rw [List.drop_of_length_le (by simp), b.length_val]
    rfl
  refine BytesN.ext ?_
  show List.zipWith _ (padTo 32 (b.val.take 32)).val (padTo 32 (b.val.drop 32)).val = b.val
  rw [List.take_of_length_le (by simp), padTo_self, hright, hzero]

/-- The stand-in primitives over a choice of X25519, with AES-GCM tags from a table. -/
def primitives (x : X25519) (table : List (Bytes × Bytes × Bytes)) : Primitives where
  x25519 := x
  importOqs := .ok oqs
  hkdf i := fold i.ikm
  encrypt k n data aad := .ok (data ++ (tag table (k, n, aad)).val)
  decrypt k n c aad :=
    if 16 ≤ c.length ∧ c.drop (c.length - 16) = (tag table (k, n, aad)).val then .ok (c.take (c.length - 16))
    else raiseLib .invalidTag
  sha256 b := padTo 32 b
  floatText s := s

variable (table : List (Bytes × Bytes × Bytes))

theorem kemCorrect : (primitives sums table).KemCorrect where
  x25519 := sums_correct
  oqs O h := by
    cases h
    exact oqs_correct

theorem kemReturns : (primitives sums table).KemReturns where
  exchange _ _ := ⟨_, rfl⟩
  fresh O h := by
    cases h
    rfl
  encap O coins coins' pk sk h _ := by
    cases h
    exact ⟨_, _, rfl⟩

theorem decrypt_append (x : X25519) (k n aad k' n' aad' data : Bytes) :
    (primitives x table).decrypt k' n' (data ++ (tag table (k, n, aad)).val) aad'
      = if (tag table (k, n, aad)).val = (tag table (k', n', aad')).val then .ok data else raiseLib .invalidTag := by
  simp [primitives]

theorem aeadCorrect (x : X25519) : (primitives x table).AeadCorrect where
  decrypt_encrypt k n data aad c h := by
    cases h
    rw [decrypt_append, if_pos rfl]
  length_encrypt k n data aad c h := by
    cases h
    simp

theorem length_decrypt (x : X25519) {k n c aad data : Bytes} (h : (primitives x table).decrypt k n c aad = .ok data) :
    c.length = data.length + 16 := by
  simp only [primitives] at h
  split at h
  · rename_i htag
    cases h
    rw [List.length_take]
    omega
  · cases h

theorem aeadReturns (x : X25519) : (primitives x table).AeadReturns where
  encrypt _ _ _ _ _ _ := ⟨_, rfl⟩
  length_decrypt _ _ _ _ _ h := length_decrypt table x h

/-- A tag inside a table of less than 256 entries stands for one triple. -/
theorem tag_injective {table : List (Bytes × Bytes × Bytes)} (hlen : table.length < 256)
    {t t' : Bytes × Bytes × Bytes} (ht : t ∈ table) (h : (tag table t).val = (tag table t').val) : t' = t := by
  have hle : ∀ s, table.idxOf s ≤ table.length := fun s => List.idxOf_le_length
  have hhead : UInt8.ofNat (table.idxOf t) = UInt8.ofNat (table.idxOf t') := by
    have h0 := congrArg List.head? h
    simpa [tag, padTo] using h0
  have hidx : table.idxOf t = table.idxOf t' := by
    have hnat := congrArg UInt8.toNat hhead
    have ht := hle t
    have ht' := hle t'
    simp only [UInt8.toNat_ofNat'] at hnat
    omega
  exact ((List.idxOf_inj ht).mp hidx).symm

/-- AES-GCM is sound for whatever is made under triples of the table. -/
theorem aeadSound (x : X25519) {table : List (Bytes × Bytes × Bytes)} (hlen : table.length < 256)
    {made : (key nonce aad ciphertext : Bytes) → Prop}
    (hmade : ∀ k n aad c, made k n aad c → (k, n, aad) ∈ table ∧
      ∃ data, (primitives x table).encrypt k n data aad = .ok c) : (primitives x table).AeadSound made := by
  intro k n aad c hc k' n' aad' data' hopen
  obtain ⟨hmem, data, hdata⟩ := hmade k n aad c hc
  cases hdata
  rw [decrypt_append] at hopen
  split at hopen
  · rename_i htag
    have ht := tag_injective hlen hmem htag
    simp only [Prod.mk.injEq] at ht
    exact ht
  · cases hopen

/-- Cut at any place, what ends in the tag of a triple of the table is opened with that triple only. -/
theorem eq_of_decrypt_drop (x : X25519) {table : List (Bytes × Bytes × Bytes)} (hlen : table.length < 256)
    {t : Bytes × Bytes × Bytes} (ht : t ∈ table) {front : Bytes} {m : Nat} {k n aad data : Bytes}
    (h : (primitives x table).decrypt k n ((front ++ (tag table t).val).drop m) aad = .ok data) : (k, n, aad) = t := by
  simp only [primitives] at h
  split at h
  · rename_i hend
    obtain ⟨hlong, htag⟩ := hend
    have hfront : (front ++ (tag table t).val).length = front.length + 16 := by
      rw [List.length_append, BytesN.length_val]
    rw [List.length_drop, hfront] at hlong
    have hcut : m + (front.length + 16 - m - 16) = front.length := by omega
    rw [List.drop_drop, List.length_drop, hfront, hcut, List.drop_left] at htag
    exact tag_injective hlen ht htag
  · cases h

/-! ### The KEM on stand-ins -/

def keypair (x : X25519) (coins : KeypairCoins) : HybridKeyPair where
  publicKey := (x.publicKey coins.seed).append (padTo mlkemPubLen coins.mlkem)
  privateKey := coins.seed.append (padTo mlkemSecretLen (padTo mlkemPubLen coins.mlkem).val)

theorem isKeypair (x : X25519) (coins : KeypairCoins) :
    IsKeypair (primitives x table) (keypair x coins).privateKey (keypair x coins).publicKey := by
  refine ⟨coins, hybridKeypair_eq_ok.mpr ?_⟩
  exact ⟨oqs, padTo mlkemPubLen coins.mlkem, padTo mlkemSecretLen (padTo mlkemPubLen coins.mlkem).val, rfl, rfl,
    rfl, rfl⟩

def encapCt (x : X25519) (coins : EncapCoins) (pub : BytesN publicKeyLen) : BytesN ciphertextLen :=
  (x.publicKey coins.ephemeral).append (padTo mlkemCtLen (seed coins.mlkem pub.right.val).val)

theorem hybridEncap_primitives (x : X25519) {coins : EncapCoins} {pub : BytesN publicKeyLen} {xSs : Bytes}
    (hpub : x.fromPublicBytes pub.left = .ok pub.left) (hx : x.exchange coins.ephemeral pub.left = .ok xSs)
    (info : Bytes) :
    hybridEncap (primitives x table) coins (.bytes pub) info
      = .ok (encapCt x coins pub, combine (primitives x table) xSs (seed coins.mlkem pub.right.val).val info) :=
  hybridEncap_eq_ok.mpr ⟨oqs, pub, pub.left, xSs, padTo mlkemCtLen (seed coins.mlkem pub.right.val).val, _, rfl, rfl,
    hpub, hx, rfl, rfl, rfl, rfl⟩

/-- The secret of an encapsulation with sums for a Diffie-Hellman. -/
def sumSecret (coins : EncapCoins) (pub : BytesN publicKeyLen) (info : Bytes) : BytesN 32 :=
  let xPeerPub : BytesN x25519PubLen := pub.left
  let xSs := Rfc7748.encodeUCoordinate (Rfc7748.decodeUCoordinate coins.ephemeral + Rfc7748.decodeUCoordinate xPeerPub)
  combine (primitives sums []) xSs.val (seed coins.mlkem pub.right.val).val info

/-- With sums for a Diffie-Hellman every encapsulation returns. -/
theorem hybridEncap_sums (coins : EncapCoins) (pub : BytesN publicKeyLen) (info : Bytes) :
    hybridEncap (primitives sums table) coins (.bytes pub) info
      = .ok (encapCt sums coins pub, sumSecret coins pub info) :=
  hybridEncap_primitives table sums rfl rfl info

theorem mlkemLeg_keypair (x : X25519) (kcoins : KeypairCoins) (ecoins : EncapCoins) :
    mlkemLeg oqs (keypair x kcoins).privateKey.right (encapCt x ecoins (keypair x kcoins).publicKey).right
      = .ok (seed ecoins.mlkem (keypair x kcoins).publicKey.right.val).val := by
  simp only [keypair, encapCt, BytesN.right_append]
  exact decapSecret_encap _ _ (padTo_padTo (by decide) (by decide) kcoins.mlkem)

/-- With sums for a Diffie-Hellman, what a foreign private key makes of an encapsulation. -/
def foreignSecret (kcoins : KeypairCoins) (ecoins : EncapCoins) (info : Bytes) : BytesN 32 :=
  let xSs := Rfc7748.encodeUCoordinate
    (Rfc7748.decodeUCoordinate kcoins.seed + Rfc7748.decodeUCoordinate (sums.publicKey ecoins.ephemeral))
  combine (primitives sums []) xSs.val (BytesN.zero 32).val info

theorem x25519Leg_foreign (kcoins : KeypairCoins) (ecoins : EncapCoins) (pub : BytesN publicKeyLen) :
    x25519Leg (primitives sums table) (keypair sums kcoins).privateKey.left (encapCt sums ecoins pub).left
      = .ok (Rfc7748.encodeUCoordinate (Rfc7748.decodeUCoordinate kcoins.seed
        + Rfc7748.decodeUCoordinate (sums.publicKey ecoins.ephemeral))).val := by
  rw [keypair, encapCt, BytesN.left_append, BytesN.left_append]
  rfl

theorem mlkemLeg_foreign (kcoins : KeypairCoins) (ecoins : EncapCoins) (pub : BytesN publicKeyLen)
    (hforeign : padTo 16 (keypair sums kcoins).privateKey.right.val ≠ padTo 16 pub.right.val) :
    mlkemLeg oqs (keypair sums kcoins).privateKey.right (encapCt sums ecoins pub).right
      = .ok (BytesN.zero 32).val := by
  rw [encapCt, BytesN.right_append]
  exact decapSecret_foreign _ _ hforeign

theorem hybridDecap_foreign (kcoins : KeypairCoins) (ecoins : EncapCoins) (pub : BytesN publicKeyLen) (info : Bytes)
    (hforeign : padTo 16 (keypair sums kcoins).privateKey.right.val ≠ padTo 16 pub.right.val) :
    hybridDecap (primitives sums table) (.bytes (encapCt sums ecoins pub))
      (.bytes (keypair sums kcoins).privateKey) info = .ok (foreignSecret kcoins ecoins info) := by
  refine hybridDecap_bytes_eq_ok.mpr ⟨oqs, _, _, rfl, x25519Leg_foreign table kcoins ecoins pub,
    mlkemLeg_foreign kcoins ecoins pub hforeign, ?_⟩
  rw [foreignSecret]
  rfl

/-! ### Keys for examples -/

def aliceCoins : KeypairCoins := { seed := ⟨List.replicate 32 1, rfl⟩, mlkem := ascii "alice" }

def bobCoins : KeypairCoins := { seed := ⟨List.replicate 32 3, rfl⟩, mlkem := ascii "bob" }

def encapCoins : EncapCoins := { ephemeral := ⟨List.replicate 32 2, rfl⟩, mlkem := ascii "sender" }

end StandIn
end SkPqc
