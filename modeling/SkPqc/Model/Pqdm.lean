import SkPqc.Model.Pqkem

/-!
# `pqdm`: prekey bundles and the one-shot seal

The bundle's fields are JSON values, since `from_dict` takes them from a peer record unchecked. The
negotiated suite and the parties go into the AAD (`downgradeLockAad`), and the AAD into the wrap key.
-/

namespace SkPqc

open Wire

namespace Pqdm

/-! ### Constants -/

def hybridSuite : Str := str "x25519-mlkem768"
def classicalSuite : Str := str "x25519-pgp-wrap-v1"
def infoWrap : Bytes := ascii "skcomms/pqdm/wrap/v1"

abbrev wrapNonceLen : Nat := 12
abbrev aesgcmTagLen : Nat := 16
abbrev sealedMinLen : Nat := Pqkem.ciphertextLen + wrapNonceLen + aesgcmTagLen

/-! ### Prekey bundles -/

structure PrekeyBundle where
  suite : Json
  hybridPublicHex : Json
  signature : Json
  keyId : Json

namespace PrekeyBundle

/-- `PrekeyBundle()` -/
def classical : PrekeyBundle :=
  { suite := .str classicalSuite, hybridPublicHex := .str [], signature := .null, keyId := .null }

/-- `is_hybrid` -/
def isHybrid (bundle : PrekeyBundle) : Bool :=
  match bundle.suite with
  | .str suite => suite = hybridSuite && truthy bundle.hybridPublicHex
  | _ => false

/-- `hybrid_public`. Only `ValueError` is caught: `bytes.fromhex` of anything but a string raises
`TypeError`. -/
def hybridPublic (bundle : PrekeyBundle) : Py (BytesN Pqkem.publicKeyLen) := do
  if !truthy bundle.hybridPublicHex then
    raise .pqDmFormatError [.lit "bundle has no hybrid prekey"]
  let pub ← tryExcept [.valueError] (bytesFromhex bundle.hybridPublicHex) fun exc =>
    raise .pqDmFormatError ([.lit "hybrid_public_hex not hex: "] ++ exc.msg)
  if h : pub.length = Pqkem.publicKeyLen then return ⟨pub, h⟩
  else
    raise .pqDmFormatError
      [.lit "hybrid public key must be ", .nat Pqkem.publicKeyLen, .lit " bytes, ", .lit "got ", .nat pub.length]

/-- `to_dict` -/
def toDict (bundle : PrekeyBundle) : List (Str × Json) :=
  [(str "suite", bundle.suite), (str "hybrid_public_hex", bundle.hybridPublicHex), (str "signature", bundle.signature),
    (str "key_id", bundle.keyId)]

/-- `from_dict` on a JSON object; `none` and the empty object give the classical bundle. -/
def fromDict (data : Option (List (Str × Json))) : PrekeyBundle :=
  match data.getD [] with
  | [] => classical
  | members =>
    let publicHex := (lookup (str "hybrid_public_hex") members).getD (.str [])
    { suite := (lookup (str "suite") members).getD (.str classicalSuite)
      hybridPublicHex := if truthy publicHex then publicHex else .str []
      signature := (lookup (str "signature") members).getD .null
      keyId := (lookup (str "key_id") members).getD .null }

end PrekeyBundle

/-! ### The downgrade lock -/

/-- The object whose canonical text is the head of the AAD. -/
def downgradeLockHead (negotiatedSuite sender recipient : Str) : Json :=
  .obj
    [(str "v", .int 1), (str "negotiated_suite", .str negotiatedSuite), (str "sender", .str sender),
      (str "recipient", .str recipient)]

/-- `downgrade_lock_aad` -/
def downgradeLockAad (negotiatedSuite sender recipient : Str) (extra : Option Bytes) : Py Bytes := do
  let head ← canonicalJson (downgradeLockHead negotiatedSuite sender recipient)
  return head ++ extra.getD []

/-- What `_wrap_key` feeds HKDF. -/
def wrapKeyInput (shared aad : Bytes) : HkdfInput :=
  { salt := [], ikm := shared, info := infoWrap ++ ascii "|" ++ aad }

/-- `_wrap_key` -/
def wrapKey (P : Primitives) (shared aad : Bytes) : BytesN 32 := P.hkdf (wrapKeyInput shared aad)

/-- What `seal` draws. -/
structure SealCoins where
  encap : Pqkem.EncapCoins
  nonce : BytesN wrapNonceLen

end Pqdm

open Pqdm Pqkem

/-- `seal` -/
def Pqdm.seal (P : Primitives) (coins : SealCoins) (plaintext : Bytes) (bundle : PrekeyBundle)
    (sender recipient : Str) : Py Bytes := do
  if !bundle.isHybrid then
    raise .pqDmFormatError
      [.lit ("seal() requires a hybrid prekey bundle; classical peers use the " ++
        "existing classical path (negotiated downgrade)")]
  let pub ← bundle.hybridPublic
  let aad ← downgradeLockAad hybridSuite sender recipient none
  let (ciphertext, shared) ← hybridEncap P coins.encap (.bytes pub) hkdfInfo
  let body ← P.encrypt (wrapKey P shared aad) coins.nonce plaintext aad
  return ciphertext ++ coins.nonce ++ body

/-- The error of a failed open. -/
def Pqdm.raiseDowngradeDetected (expectedSuite : Str) (exc : Exc) : Py Bytes :=
  raise .downgradeDetected
    ([.lit "hybrid-sealed open failed — wrong key, tampered ciphertext, or a ",
      .lit "suite-downgrade attempt (AAD bound suite=", .repr expectedSuite, .lit "): "] ++ exc.msg)

/-- `open_sealed` -/
def Pqdm.openSealed (P : Primitives) (sealedBlob hybridPrivate : PyVal) (sender recipient expectedSuite : Str) :
    Py Bytes := do
  match sealedBlob.data? with
  | none => raise .pqDmFormatError [.lit "sealed must be bytes, got ", .lit sealedBlob.typeName]
  | some blob =>
    if blob.length < sealedMinLen then
      raise .pqDmFormatError
        [.lit "sealed blob must be >= ", .nat sealedMinLen, .lit " bytes, got ", .nat blob.length]
    let ciphertext := blob.take ciphertextLen
    let nonce := slice blob ciphertextLen (ciphertextLen + wrapNonceLen)
    let body := blob.drop (ciphertextLen + wrapNonceLen)
    let aad ← downgradeLockAad expectedSuite sender recipient none
    let shared ← hybridDecap P (.bytes ciphertext) hybridPrivate hkdfInfo
    tryExcept [.exception] (P.decrypt (wrapKey P shared aad) nonce body aad) (raiseDowngradeDetected expectedSuite)

/-- `negotiate_suite` -/
def Pqdm.negotiateSuite (localSupportsHybrid : Bool) (bundle : PrekeyBundle) : Str :=
  if localSupportsHybrid && bundle.isHybrid then hybridSuite else classicalSuite

end SkPqc
