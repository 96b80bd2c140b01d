import SkPqc.Model.Primitives

/-!
# `pqkem`: the hybrid KEM X25519 + ML-KEM-768

A key or a ciphertext is the X25519 part followed by the ML-KEM part, each of fixed length; the
types carry the lengths that `_expect_len` checks. `combine` hashes the two leg secrets.
-/

namespace SkPqc
namespace Pqkem

open Wire

/-! ### Constants -/

def hkdfSalt : Bytes := []
def hkdfInfo : Bytes := ascii "sk_pqc/x25519-mlkem768/v1"

abbrev x25519PubLen : Nat := 32
abbrev x25519SeedLen : Nat := 32
abbrev mlkemPubLen : Nat := 1184
abbrev mlkemSecretLen : Nat := 2400
abbrev mlkemCtLen : Nat := 1088

abbrev publicKeyLen : Nat := x25519PubLen + mlkemPubLen
abbrev privateKeyLen : Nat := x25519SeedLen + mlkemSecretLen
abbrev ciphertextLen : Nat := x25519PubLen + mlkemCtLen

/-! ### Random choices -/

/-- What `hybrid_keypair` draws: the X25519 seed and the randomness of ML-KEM key generation. -/
structure KeypairCoins where
  seed : BytesN x25519SeedLen
  mlkem : Bytes

/-- What `hybrid_encap` draws: the ephemeral X25519 seed and the randomness of ML-KEM. -/
structure EncapCoins where
  ephemeral : BytesN x25519SeedLen
  mlkem : Bytes

structure HybridKeyPair where
  publicKey : BytesN publicKeyLen
  privateKey : BytesN privateKeyLen

/-! ### Functions -/

/-- `_import_oqs`, where the search in front of the import (`ensure_liboqs_path`) returns. -/
def importOqs (P : Primitives) : Py Oqs :=
  tryExcept [.exception] P.importOqs fun exc =>
    raise .pqKemUnavailable ([.lit <|
      "Post-quantum KEM backend unavailable: could not import 'oqs' " ++
      "(liboqs-python). Install with `pip install liboqs-python` and ensure " ++
      "a liboqs shared library is reachable (e.g. ~/.local/lib/liboqs.so; " ++
      "set OQS_INSTALL_PATH or SK_PQC_LIBOQS). This is a hard error — the " ++
      "hybrid KEM never silently downgrades to classical-only. ("] ++ exc.msg ++ [.lit ")"])

/-- `is_available` -/
def isAvailable (P : Primitives) : Py Bool :=
  tryExcept [.pqKemUnavailable] (do let _ ← importOqs P; return true) fun _ => return false

/-- `_expect_len`, which gives back the contents of the value it accepts. -/
def expectLen (label : String) (value : PyVal) (expected : Nat) : Py (BytesN expected) :=
  match value.data? with
  | none => raise .pqKemFormatError [.lit label, .lit " must be bytes, got ", .lit value.typeName]
  | some b =>
    if h : b.length = expected then .ok ⟨b, h⟩
    else raise .pqKemFormatError [.lit label, .lit " must be ", .nat expected, .lit " bytes, got ", .nat b.length]

/-- What `_combine` feeds HKDF: the X25519 secret first, then the ML-KEM secret. -/
def combineInput (x25519Ss mlkemSs info : Bytes) : HkdfInput :=
  { salt := hkdfSalt, ikm := x25519Ss ++ mlkemSs, info := info }

/-- `_combine` -/
def combine (P : Primitives) (x25519Ss mlkemSs info : Bytes) : BytesN 32 :=
  P.hkdf (combineInput x25519Ss mlkemSs info)

/-- `hybrid_keypair` -/
def hybridKeypair (P : Primitives) (coins : KeypairCoins) : Py HybridKeyPair := do
  let oqs ← importOqs P
  let xPub := P.x25519.publicKey coins.seed
  oqs.keyEncapsulation none
  let (mlkemPub, mlkemSecret) ← oqs.generateKeypair coins.mlkem
  let mlkemPub ← expectLen "ML-KEM public key" mlkemPub mlkemPubLen
  let mlkemSecret ← expectLen "ML-KEM secret key" mlkemSecret mlkemSecretLen
  return { publicKey := xPub.append mlkemPub, privateKey := coins.seed.append mlkemSecret }

/-- `hybrid_encap` -/
def hybridEncap (P : Primitives) (coins : EncapCoins) (peerPublicKey : PyVal) (info : Bytes) :
    Py (BytesN ciphertextLen × BytesN 32) := do
  let oqs ← importOqs P
  let peerPublicKey ← expectLen "hybrid public key" peerPublicKey publicKeyLen
  let xPeerPub : BytesN x25519PubLen := peerPublicKey.left
  let mlkemPeerPub : BytesN mlkemPubLen := peerPublicKey.right
  let xPeer ← tryExcept [.exception] (P.x25519.fromPublicBytes xPeerPub) fun exc =>
    raise .pqKemFormatError ([.lit "invalid X25519 public key: "] ++ exc.msg)
  let xEphPub := P.x25519.publicKey coins.ephemeral
  -- outside any `try`: an error of the exchange escapes as it is
  let xSs ← P.x25519.exchange coins.ephemeral xPeer
  oqs.keyEncapsulation none
  let (mlkemCt, mlkemSs) ← tryExcept [.exception] (oqs.encapSecret coins.mlkem mlkemPeerPub.val) fun exc =>
    raise .pqKemFormatError ([.lit "ML-KEM encapsulation failed: "] ++ exc.msg)
  let mlkemCt ← expectLen "ML-KEM ciphertext" mlkemCt mlkemCtLen
  return (xEphPub.append mlkemCt, combine P xSs mlkemSs info)

/-- `hybrid_decap` -/
def hybridDecap (P : Primitives) (ciphertext privateKey : PyVal) (info : Bytes) : Py (BytesN 32) := do
  let oqs ← importOqs P
  let ciphertext ← expectLen "hybrid ciphertext" ciphertext ciphertextLen
  let privateKey ← expectLen "hybrid private key" privateKey privateKeyLen
  let xEphPub : BytesN x25519PubLen := ciphertext.left
  let mlkemCt : BytesN mlkemCtLen := ciphertext.right
  let xSeed : BytesN x25519SeedLen := privateKey.left
  let mlkemSecret : BytesN mlkemSecretLen := privateKey.right
  let xSs ← tryExcept [.exception]
    (do
      let xPriv ← P.x25519.fromPrivateBytes xSeed
      let xEph ← P.x25519.fromPublicBytes xEphPub
      P.x25519.exchange xPriv xEph)
    fun exc => raise .pqKemFormatError ([.lit "invalid X25519 key material: "] ++ exc.msg)
  oqs.keyEncapsulation (some mlkemSecret.val)
  let mlkemSs ← tryExcept [.exception] (oqs.decapSecret mlkemSecret.val mlkemCt.val) fun exc =>
    raise .pqKemFormatError ([.lit "ML-KEM decapsulation failed: "] ++ exc.msg)
  return combine P xSs mlkemSs info

/-! ### What the functions return -/

theorem importOqs_eq_ok {P : Primitives} {oqs : Oqs} : importOqs P = .ok oqs ↔ P.importOqs = .ok oqs :=
  tryExcept_raise_eq_ok

/-- Whatever makes the import fail, the code raises `PqKemUnavailable`. -/
theorem importOqs_withoutOqs (P : Primitives) (e : Exc) :
    ∃ msg, importOqs (P.withoutOqs e) = .error ⟨.pqKemUnavailable, msg⟩ :=
  ⟨_, tryExcept_exception e _⟩

theorem expectLen_eq_ok {label : String} {value : PyVal} {n : Nat} {b : BytesN n} :
    expectLen label value n = .ok b ↔ value.data? = some b.val := by
  unfold expectLen
  cases value.data? with
  | none => simp [raise]
  | some data =>
    by_cases h : data.length = n
    · simp [h, BytesN.ext_iff]
    · have hne : data ≠ b.val := fun heq => h (heq ▸ b.length_val)
      simp [h, hne, raise]

@[simp] theorem expectLen_bytes (label : String) {n : Nat} (b : BytesN n) :
    expectLen label (.bytes b.val) n = .ok b :=
  expectLen_eq_ok.mpr rfl

end Pqkem
end SkPqc
