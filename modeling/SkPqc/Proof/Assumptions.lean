import Mathlib.Data.Set.Function
import SkPqc.Model.Pqkem

/-!
# What is assumed of the cryptography

The documented behaviour of the packages outside the repository, as properties of a `Primitives`.
Correctness laws hold of every input. Security laws cannot (a tag of fixed length has collisions), so
they are stated for the ciphertexts that a given run makes (`AeadSound`) and, for hashes, as
`Set.InjOn` on the inputs that a result compares.
-/

namespace SkPqc

open Wire Pqkem

/-- X25519 (RFC 7748): the two sides of a Diffie-Hellman exchange agree on 32 bytes. Any 32 bytes are a
key. -/
structure X25519.Correct (X : X25519) : Prop where
  fromPublicBytes : ∀ b, X.fromPublicBytes b = .ok b
  fromPrivateBytes : ∀ b, X.fromPrivateBytes b = .ok b
  agree : ∀ a b s, X.exchange a (X.publicKey b) = .ok s → X.exchange b (X.publicKey a) = .ok s
  length_exchange : ∀ k u s, X.exchange k u = .ok s → s.length = 32

/-- ML-KEM-768 (FIPS 203): a generated secret key opens a context, decapsulates what was encapsulated to
its public key, and contains that public key. A decapsulated secret is 32 bytes. -/
structure Oqs.Correct (O : Oqs) : Prop where
  opens : ∀ coins pk sk, O.generateKeypair coins = .ok (pk, sk) → O.keyEncapsulation (some sk) = .ok ()
  decap_encap : ∀ coins coins' pk sk ct ss, O.generateKeypair coins = .ok (pk, sk) →
    O.encapSecret coins' pk = .ok (ct, ss) → O.decapSecret sk ct = .ok ss
  publicKey_unique : ∀ coins coins' pk pk' sk, O.generateKeypair coins = .ok (pk, sk) →
    O.generateKeypair coins' = .ok (pk', sk) → pk = pk'
  length_decap : ∀ sk ct ss, O.decapSecret sk ct = .ok ss → ss.length = 32

/-- A present backend opens a context for ML-KEM-768, empty or with a secret key of the right length. -/
structure Oqs.Opens (O : Oqs) : Prop where
  fresh : O.keyEncapsulation none = .ok ()
  withSecret : ∀ sk : BytesN mlkemSecretLen, O.keyEncapsulation (some sk.val) = .ok ()

/-- X25519 in pyca: any 32 bytes are a public value, and an exchange raises a plain `ValueError` where the
shared secret is all zero. -/
structure X25519.ChecksZero (X : X25519) (shared : BytesN 32 → BytesN 32 → BytesN 32) : Prop where
  fromPublicBytes : ∀ b, X.fromPublicBytes b = .ok b
  exchange : ∀ k u, X.exchange k u = if shared k u = .zero 32 then raiseLib .valueError else .ok (shared k u).val

namespace Primitives

/-- Both legs of the hybrid KEM are correct. -/
structure KemCorrect (P : Primitives) : Prop where
  x25519 : P.x25519.Correct
  oqs : ∀ O, P.importOqs = .ok O → O.Correct

/-- Both legs of an encapsulation to a generated public key return, ML-KEM with a ciphertext of its length. -/
structure KemReturns (P : Primitives) : Prop where
  exchange : ∀ a b, ∃ s, P.x25519.exchange a (P.x25519.publicKey b) = .ok s
  fresh : ∀ O, P.importOqs = .ok O → O.keyEncapsulation none = .ok ()
  encap : ∀ O coins coins' pk sk, P.importOqs = .ok O → O.generateKeypair coins = .ok (pk, sk) →
    ∃ (ct : BytesN mlkemCtLen) (ss : Bytes), O.encapSecret coins' pk = .ok (ct.val, ss)

/-- AES-GCM: opening with the same key, nonce and AAD gives the data back; the tag is 16 bytes. -/
structure AeadCorrect (P : Primitives) : Prop where
  decrypt_encrypt : ∀ k n data aad c, P.encrypt k n data aad = .ok c → P.decrypt k n c aad = .ok data
  length_encrypt : ∀ k n data aad c, P.encrypt k n data aad = .ok c → c.length = data.length + 16

theorem AeadCorrect.tag_le {P : Primitives} (h : P.AeadCorrect) {k n data aad c : Bytes}
    (hencrypt : P.encrypt k n data aad = .ok c) : 16 ≤ c.length := by
  rw [h.length_encrypt _ _ _ _ _ hencrypt]
  exact Nat.le_add_left ..

/-- AES-256-GCM encrypts fewer than `2 ^ 31` bytes, and what it opens is 16 bytes longer than the data. -/
structure AeadReturns (P : Primitives) : Prop where
  encrypt : ∀ (k : BytesN 32) (n : BytesN 12) (data aad : Bytes), data.length < 2 ^ 31 → aad.length < 2 ^ 31 →
    ∃ c, P.encrypt k n data aad = .ok c
  length_decrypt : ∀ k n c aad data, P.decrypt k n c aad = .ok data → c.length = data.length + 16

/-- What AES-GCM opens is 16 bytes longer than the data. -/
def DecryptDropsTag (P : Primitives) : Prop :=
  ∀ k n c aad data, P.decrypt k n c aad = .ok data → c.length = data.length + 16

/-- AES-256-GCM raises `OverflowError` for longer data or a longer AAD. -/
def AeadOverflows (P : Primitives) : Prop :=
  ∀ (k : BytesN 32) (n : BytesN 12) (data aad : Bytes), ¬(data.length < 2 ^ 31 ∧ aad.length < 2 ^ 31) →
    ∃ msg, P.encrypt k n data aad = .error ⟨.overflowError, msg⟩

/-- No call outside the repository whose errors the code lets through raises the class. -/
structure RaisesNo (P : Primitives) (cls : ExcClass) : Prop where
  exchange : ∀ k u msg, P.x25519.exchange k u ≠ .error ⟨cls, msg⟩
  keyEncapsulation : ∀ O sk msg, P.importOqs = .ok O → O.keyEncapsulation sk ≠ .error ⟨cls, msg⟩
  encrypt : ∀ k n data aad msg, P.encrypt k n data aad ≠ .error ⟨cls, msg⟩

/-- AES-GCM opens each ciphertext that was made only under the key, nonce and AAD that made it. -/
def AeadSound (P : Primitives) (made : (key nonce aad ciphertext : Bytes) → Prop) : Prop :=
  ∀ k n aad c, made k n aad c →
    ∀ k' n' aad' data, P.decrypt k' n' c aad' = .ok data → k' = k ∧ n' = n ∧ aad' = aad

/-- AES-GCM accepts what an opening tries only if that ciphertext was made with that key, nonce and AAD. -/
def AeadAuthentic (P : Primitives) (made tried : (key nonce aad ciphertext : Bytes) → Prop) : Prop :=
  ∀ k n aad c, tried k n aad c → ∀ data, P.decrypt k n c aad = .ok data → made k n aad c

end Primitives

/-- The hybrid keypairs: what `hybrid_keypair` returns. -/
def IsKeypair (P : Primitives) (priv : BytesN privateKeyLen) (pub : BytesN publicKeyLen) : Prop :=
  ∃ coins, hybridKeypair P coins = .ok { publicKey := pub, privateKey := priv }

/-- Of the encapsulations that were made, a private key recovers the secrets of those to its own public key
only. -/
def KemExact (P : Primitives) (made : BytesN publicKeyLen → BytesN ciphertextLen → BytesN 32 → Prop)
    (priv : BytesN privateKeyLen) : Prop :=
  ∀ pub ct ss, made pub ct ss → hybridDecap P (.bytes ct) (.bytes priv) hkdfInfo = .ok ss → IsKeypair P priv pub

/-- Of the encapsulations that were made to another public key, a private key gives another secret. -/
def KemDiffers (P : Primitives) (made : BytesN publicKeyLen → BytesN ciphertextLen → BytesN 32 → Prop)
    (priv : BytesN privateKeyLen) : Prop :=
  ∀ pub ct ss, made pub ct ss → ¬IsKeypair P priv pub →
    ∃ ss', hybridDecap P (.bytes ct) (.bytes priv) hkdfInfo = .ok ss' ∧ ss' ≠ ss

end SkPqc
