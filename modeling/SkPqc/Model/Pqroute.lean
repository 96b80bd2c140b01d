import SkPqc.Model.Pqkem

/-!
# `pqroute`: the routing envelope

    blob  = hdr_len(4) || route_hdr_json || ct(1120) || nonce(12) || aesgcm(inner)
    inner = meta_len(4) || inner_metadata_json || content

A relay reads the header with `readRouteHeader`; the destination opens the sealed inner under an AAD
made of the header bytes it received. Both take the interpreter's `json.loads` as an argument, since it lets
through an error that neither of them catches: `readRouteHeader` and `openRouted` are the two where the recursion
limit is out of reach, `readRouteHeaderWithin` and `openRoutedWithin` those under a limit.
-/

namespace SkPqc
namespace Pqroute

open Wire Pqkem

/-! ### Constants -/

def routeSuite : String := "pqroute1"
def infoWrap : Bytes := ascii "skcomms/pqroute/wrap/v1"

abbrev lenPrefix : Nat := 4
abbrev wrapNonceLen : Nat := 12
abbrev aesgcmTagLen : Nat := 16
abbrev sealedMinLen : Nat := ciphertextLen + wrapNonceLen + aesgcmTagLen

/-! ### Canonical form, AAD and key -/

/-- `_canonical` -/
def canonical (obj : Json) : Py Bytes := canonicalJson obj

/-- `_aad` -/
def aad (routeHdrCanonical : Bytes) : Bytes := ascii routeSuite ++ ascii "|" ++ routeHdrCanonical

/-- What `_wrap_key` feeds HKDF. -/
def wrapKeyInput (shared aad : Bytes) : HkdfInput :=
  { salt := [], ikm := shared, info := infoWrap ++ ascii "|" ++ aad }

/-- `_wrap_key` -/
def wrapKey (P : Primitives) (shared aad : Bytes) : BytesN 32 := P.hkdf (wrapKeyInput shared aad)

/-! ### The outer layer -/

/-- `_split_outer` -/
def splitOuter (blob : PyVal) : Py (Bytes × Bytes) :=
  match blob.data? with
  | none => raise .pqRouteFormatError [.lit "blob must be bytes, got ", .lit blob.typeName]
  | some blob =>
    if blob.length < lenPrefix then
      raise .pqRouteFormatError [.lit "blob too short for a route-header length prefix"]
    else
      let hdrLen := unpackU32 (blob.take lenPrefix)
      let start := lenPrefix
      let stop := start + hdrLen
      if stop > blob.length then raise .pqRouteFormatError [.lit "route header length exceeds blob size"]
      else .ok (slice blob start stop, blob.drop stop)

/-- `json.loads(b.decode("utf-8"))`, with its `ValueError` turned into an error of the module. -/
def loadsHeader (jsonLoads : Str → Py Json) (cls : ExcClass) (text : String) (b : Bytes) : Py Json :=
  tryExcept [.valueError, .unicodeDecodeError] (do jsonLoads (← bytesDecode b)) fun exc =>
    raise cls ([.lit text] ++ exc.msg)

/-- `read_route_header` -/
def readRouteHeaderWith (jsonLoads : Str → Py Json) (blob : PyVal) : Py Json := do
  let (routeBytes, _) ← splitOuter blob
  loadsHeader jsonLoads .pqRouteFormatError "route header not valid JSON: " routeBytes

def readRouteHeader (P : Primitives) (blob : PyVal) : Py Json := readRouteHeaderWith P.jsonLoads blob

def readRouteHeaderWithin (P : Primitives) (levels : Nat) (blob : PyVal) : Py Json :=
  readRouteHeaderWith (P.jsonLoadsWithin levels) blob

/-- `replace_route_header` -/
def replaceRouteHeader (blob : PyVal) (newRouteHdr : Json) : Py Bytes := do
  let (_, sealedInner) ← splitOuter blob
  let routeBytes ← tryExcept [.typeError, .valueError] (canonical newRouteHdr) fun exc =>
    raise .pqRouteFormatError ([.lit "header not JSON-serialisable: "] ++ exc.msg)
  return (← ofOption .structError (packU32 routeBytes.length)) ++ routeBytes ++ sealedInner

/-! ### Seal and open -/

/-- What `seal_routed` draws. -/
structure SealCoins where
  encap : EncapCoins
  nonce : BytesN wrapNonceLen

/-- `seal_routed` -/
def sealRouted (P : Primitives) (coins : SealCoins) (innerMetadata : Json) (content : Bytes)
    (destHybridPub : PyVal) (routeHdr : Json) : Py Bytes := do
  match destHybridPub.data? with
  | none =>
    raise .pqRouteFormatError [.lit "dest_hybrid_pub must be bytes, got ", .lit destHybridPub.typeName]
  | some pub =>
    if pub.length ≠ publicKeyLen then
      raise .pqRouteFormatError
        [.lit "dest_hybrid_pub must be ", .nat publicKeyLen, .lit " bytes, ", .lit "got ", .nat pub.length]
    let (routeBytes, metaBytes) ← tryExcept [.typeError, .valueError]
      (do return (← canonical routeHdr, ← canonical innerMetadata))
      fun exc => raise .pqRouteFormatError ([.lit "header not JSON-serialisable: "] ++ exc.msg)
    let inner := (← ofOption .structError (packU32 metaBytes.length)) ++ metaBytes ++ content
    let aad := aad routeBytes
    -- `PqKemUnavailable` is a `PqKemError`, so a missing backend is renamed here as well
    let (ciphertext, shared) ← tryExcept [.pqKemError] (hybridEncap P coins.encap (.bytes pub) hkdfInfo)
      fun exc => raise .pqRouteFormatError ([.lit "hybrid encapsulation failed: "] ++ exc.msg)
    let sealedInner ← P.encrypt (wrapKey P shared aad) coins.nonce inner aad
    return (← ofOption .structError (packU32 routeBytes.length)) ++ routeBytes ++ ciphertext ++ coins.nonce ++
      sealedInner

/-- The cut of a decrypted inner into metadata and content. -/
def splitInner (jsonLoads : Str → Py Json) (inner : Bytes) : Py (Json × Bytes) :=
  if inner.length < lenPrefix then raise .pqRouteOpenError [.lit "decrypted inner is truncated"]
  else do
    let metaLen := unpackU32 (inner.take lenPrefix)
    if lenPrefix + metaLen > inner.length then
      raise .pqRouteOpenError [.lit "decrypted inner metadata length is out of range"]
    let metaBytes := slice inner lenPrefix (lenPrefix + metaLen)
    let content := inner.drop (lenPrefix + metaLen)
    let innerMetadata ← loadsHeader jsonLoads .pqRouteOpenError "inner metadata not valid JSON: " metaBytes
    return (innerMetadata, content)

/-- `open_routed` -/
def openRoutedWith (jsonLoads : Str → Py Json) (P : Primitives) (blob destHybridPriv : PyVal) :
    Py (Json × Json × Bytes) := do
  let (routeBytes, sealedInner) ← splitOuter blob
  if sealedInner.length < sealedMinLen then
    raise .pqRouteFormatError
      [.lit "sealed inner must be >= ", .nat sealedMinLen, .lit " bytes, got ", .nat sealedInner.length]
  let routeHdr ← loadsHeader jsonLoads .pqRouteFormatError "route header not valid JSON: " routeBytes
  let ciphertext := sealedInner.take ciphertextLen
  let nonce := slice sealedInner ciphertextLen (ciphertextLen + wrapNonceLen)
  let body := sealedInner.drop (ciphertextLen + wrapNonceLen)
  let aad := aad routeBytes
  let shared ← tryExcept [.pqKemError]
    (do hybridDecap P (.bytes ciphertext) (.bytes (← destHybridPriv.toBytes)) hkdfInfo)
    fun exc => raise .pqRouteOpenError ([.lit "hybrid decapsulation failed: "] ++ exc.msg)
  let inner ← tryExcept [.exception] (P.decrypt (wrapKey P shared aad) nonce body aad) fun exc =>
    raise .pqRouteOpenError
      ([.lit "pqroute1 open failed — wrong key, tampered inner, or a rewritten ",
        .lit "route header (the header is AEAD-bound): "] ++ exc.msg)
  let (innerMetadata, content) ← splitInner jsonLoads inner
  return (routeHdr, innerMetadata, content)

def openRouted (P : Primitives) (blob destHybridPriv : PyVal) : Py (Json × Json × Bytes) :=
  openRoutedWith P.jsonLoads P blob destHybridPriv

def openRoutedWithin (P : Primitives) (levels : Nat) (blob destHybridPriv : PyVal) : Py (Json × Json × Bytes) :=
  openRoutedWith (P.jsonLoadsWithin levels) P blob destHybridPriv

end Pqroute
end SkPqc
