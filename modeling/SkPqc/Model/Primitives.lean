import SkPqc.Model.Python
import SkPqc.Wire.JsonDepth

/-!
# The cryptography outside the repository

What the code takes from `cryptography` (X25519, HKDF-SHA256, AES-256-GCM, SHA-256) and from `oqs`
(ML-KEM-768), as the fields of one structure that every function of the model takes, together with
the one thing of the `json` module that is left open. A key object of X25519 is known by its raw 32
bytes. Random choices are arguments, so each call is a function.
-/

namespace SkPqc

open Wire

/-- The arguments of `HKDF(algorithm=hashes.SHA256(), length=32, salt, info).derive(ikm)`. -/
structure HkdfInput where
  salt : Bytes
  ikm : Bytes
  info : Bytes
  deriving DecidableEq

/-- `cryptography.hazmat.primitives.asymmetric.x25519` -/
structure X25519 where
  /-- `X25519PrivateKey.from_private_bytes(seed).public_key().public_bytes_raw()` -/
  publicKey : BytesN 32 → BytesN 32
  /-- `X25519PublicKey.from_public_bytes(data)` -/
  fromPublicBytes : BytesN 32 → Py (BytesN 32)
  /-- `X25519PrivateKey.from_private_bytes(data)` -/
  fromPrivateBytes : BytesN 32 → Py (BytesN 32)
  /-- `private_key.exchange(public_key)` -/
  exchange : BytesN 32 → BytesN 32 → Py Bytes

/-- An imported `oqs` module, used for `oqs.KeyEncapsulation("ML-KEM-768")` only. -/
structure Oqs where
  /-- Entering `with oqs.KeyEncapsulation(MLKEM_ALG, secret_key=...) as kem`. -/
  keyEncapsulation : (secretKey : Option Bytes) → Py Unit
  /-- `(kem.generate_keypair(), kem.export_secret_key())` on the random bytes drawn. -/
  generateKeypair : (coins : Bytes) → Py (Bytes × Bytes)
  /-- `kem.encap_secret(public_key)`: the ciphertext and the secret. -/
  encapSecret : (coins : Bytes) → (publicKey : Bytes) → Py (Bytes × Bytes)
  /-- `kem.decap_secret(ciphertext)` in a context opened with a secret key. -/
  decapSecret : (secretKey : Bytes) → (ciphertext : Bytes) → Py Bytes

structure Primitives where
  x25519 : X25519
  /-- `import oqs` -/
  importOqs : Py Oqs
  hkdf : HkdfInput → BytesN 32
  /-- `AESGCM(key).encrypt(nonce, data, aad)`, with `b""` for an AAD of `None`. -/
  encrypt : (key nonce data aad : Bytes) → Py Bytes
  /-- `AESGCM(key).decrypt(nonce, data, aad)` -/
  decrypt : (key nonce data aad : Bytes) → Py Bytes
  sha256 : Bytes → BytesN 32
  /-- The text `json.dumps` prints for the float that a literal reads as. -/
  floatText : Str → Str

namespace Primitives

/-- `json.loads(s)` on a `str`, in an interpreter whose recursion limit is out of reach. -/
def jsonLoads (P : Primitives) (s : Str) : Py Json := ofOption .jsonDecodeError (Json.loads P.floatText s)

/-- `json.loads(s)` on a `str`, in an interpreter with room for this many levels of arrays and objects. -/
def jsonLoadsWithin (P : Primitives) (levels : Nat) (s : Str) : Py Json :=
  match Json.loadsWithin P.floatText levels s with
  | .ok v => .ok v
  | .error .malformed => raiseLib .jsonDecodeError
  | .error .tooDeep => raiseLib .recursionError

/-- The limit shows on the texts that nest past it, and on no other. -/
theorem jsonLoadsWithin_eq (P : Primitives) (levels : Nat) (s : Str) :
    P.jsonLoadsWithin levels s =
      if levels < Json.nesting P.floatText s then raiseLib .recursionError else P.jsonLoads s := by
  rw [jsonLoadsWithin, Json.loadsWithin_eq, Json.limited, jsonLoads]
  by_cases hdeep : levels < Json.nesting P.floatText s
  · simp only [if_pos hdeep]
  · simp only [if_neg hdeep]
    cases Json.loads P.floatText s <;> rfl

/-- `json.loads(b)` on `bytes`, with the limit out of reach too. -/
def jsonLoadsBytes (P : Primitives) (b : Bytes) : Py Json :=
  match Json.decodeDetected b with
  | none => raiseLib .unicodeDecodeError
  | some s => ofOption .jsonDecodeError (Json.decode P.floatText s)

theorem jsonLoadsBytes_eq_ok {P : Primitives} {b : Bytes} {v : Json} :
    P.jsonLoadsBytes b = .ok v ↔ Json.loadsBytes P.floatText b = some v := by
  unfold jsonLoadsBytes Json.loadsBytes
  cases Json.decodeDetected b with
  | none => simp [raiseLib, raise]
  | some s => simp [ofOption_eq_ok]

/-- The same machine with an `oqs` that does not import. -/
def withoutOqs (P : Primitives) (e : Exc) : Primitives := { P with importOqs := .error e }

end Primitives

/-- `json.dumps(v, sort_keys=True, separators=(",", ":")).encode("utf-8")` -/
def canonicalJson (v : Json) : Py Bytes := strEncode (Json.dumps v)

end SkPqc
