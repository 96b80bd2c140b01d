import SkPqc.Model.Pqdm

/-!
# `pqdm2`: the fanout envelope

    token = "pqdm2:" + b64(header_json) + "." + b64(slots) + "." + b64(nonce || ct)
    slot  = key_id_len(1) || key_id || encap(1120) || wrappedK(48)

`sealMulti` takes the recipients as JSON objects and reads their fields as the source does. The slot
region is scanned by offset; `pqdm2IterSlots` is the generator run to its end, as the slots it yields
and the exception that stops it, if one does. `openMulti` takes the first matching slot, so what the
generator would do after it does not matter.
-/

namespace SkPqc
namespace Pqdm

open Wire Pqkem

/-! ### Constants -/

def pqdm2Prefix : Str := str "pqdm2:"
def pqdm2Version : Int := 2
def pqdm2WrapInfo : Bytes := ascii "pqdm2-wrap"

abbrev pqdm2WrappedKLen : Nat := 32 + aesgcmTagLen

/-! ### Keys and AAD -/

/-- `generate_hybrid_keypair` -/
def generateHybridKeypair (P : Primitives) (coins : KeypairCoins) : Py (Str × Str) := do
  let kp ← hybridKeypair P coins
  return (hex kp.publicKey, hex kp.privateKey)

/-- `_pqdm2_aad`. The suite and the key ids of an incoming token are whatever its header holds. -/
def pqdm2Aad (P : Primitives) (suite : Json) (sender recipient : Str) (kids : Json) : Py Bytes := do
  let kidDigest := P.sha256 (← strEncode (← sortedJoin kids))
  return (← jsonEncode suite) ++ ascii "|" ++ (← strEncode sender) ++ ascii "|" ++ (← strEncode recipient) ++
    ascii "|" ++ kidDigest

/-- What `_pqdm2_wrap_key` feeds HKDF. -/
def pqdm2WrapKeyInput (shared : Bytes) : HkdfInput := { salt := [], ikm := shared, info := pqdm2WrapInfo }

/-- `_pqdm2_wrap_key` -/
def pqdm2WrapKey (P : Primitives) (shared : Bytes) : BytesN 32 := P.hkdf (pqdm2WrapKeyInput shared)

/-! ### Sealing -/

/-- What `seal_multi` draws: the message key, the nonce, and for the recipient at each position the
random choices of its encapsulation. -/
structure SealMultiCoins where
  messageKey : BytesN 32
  nonce : BytesN wrapNonceLen
  encap : Nat → EncapCoins

/-- One recipient of `seal_multi`: a JSON object. -/
abbrev Recipient := List (Str × Json)

/-- The body of the loop over the recipients: the slot's bytes. -/
def sealSlot (P : Primitives) (coins : SealMultiCoins) (i : Nat) (r : Recipient) : Py Bytes := do
  let keyId ← getItem (str "key_id") r
  let kidBytes ← jsonEncode keyId
  if kidBytes.length > 255 then
    raise .pqDmFormatError [.lit "key_id too long (", .nat kidBytes.length, .lit " bytes)"]
  let pub ← tryExcept [.valueError, .keyError, .typeError]
    (do bytesFromhex (← getItem (str "hybrid_public_hex") r))
    fun exc =>
      raise .pqDmFormatError
        ([.lit "bad hybrid_public_hex for ", (match keyId with | .str s => .repr s | _ => .lib), .lit ": "] ++ exc.msg)
  let (encap, shared) ← hybridEncap P (coins.encap i) (.bytes pub) hkdfInfo
  let wrappedK ← P.encrypt (pqdm2WrapKey P shared) coins.nonce coins.messageKey []
  return [UInt8.ofNat kidBytes.length] ++ kidBytes ++ encap ++ wrappedK

/-- The loop over the recipients, from position `i` on. -/
def sealSlots (P : Primitives) (coins : SealMultiCoins) : (i : Nat) → List Recipient → Py Bytes
  | _, [] => return []
  | i, r :: rs => do
    let slot ← sealSlot P coins i r
    let slots ← sealSlots P coins (i + 1) rs
    return slot ++ slots

/-- The header object. -/
def pqdm2Header (suite sender recipient : Str) (kids : List Json) : Json :=
  .obj
    [(str "v", .int pqdm2Version), (str "suite", .str suite), (str "sender", .str sender),
      (str "recipient", .str recipient), (str "kids", .arr kids)]

/-- The token that carries a header, a slot region and a body region. -/
def pqdm2Token (headerJson slots blob : Bytes) : Str :=
  pqdm2Prefix ++ (b64Text headerJson ++ str "." ++ b64Text slots ++ str "." ++ b64Text blob)

/-- `seal_multi` -/
def sealMulti (P : Primitives) (coins : SealMultiCoins) (body : Bytes) (recipients : List Recipient)
    (sender recipientId : Str) : Py Str := do
  if recipients.isEmpty then
    raise .pqDmFormatError [.lit "seal_multi() requires at least one recipient slot"]
  let kids ← recipients.mapM (getItem (str "key_id"))
  let aad ← pqdm2Aad P (.str hybridSuite) sender recipientId (.arr kids)
  let ct ← P.encrypt coins.messageKey coins.nonce body aad
  let slots ← sealSlots P coins 0 recipients
  let headerJson ← canonicalJson (pqdm2Header hybridSuite sender recipientId kids)
  return pqdm2Token headerJson slots (coins.nonce ++ ct)

/-! ### Opening -/

/-- What the generator yields for one slot. -/
structure Slot where
  keyId : Str
  encap : Bytes
  wrappedK : Bytes
  deriving DecidableEq

/-- One iteration of `_pqdm2_iter_slots` at an offset inside the region: the slot and the next
offset. -/
def pqdm2NextSlot (slots : Bytes) (off : Nat) : Py (Slot × Nat) :=
  let kidLen := (slots.getD off 0).toNat
  let off := off + 1
  let endKid := off + kidLen
  let endEncap := endKid + ciphertextLen
  let endWrap := endEncap + pqdm2WrappedKLen
  if endWrap > slots.length then raise .pqDmFormatError [.lit "truncated pqdm2 slot"]
  else
    .ok ({ keyId := decodeUtf8Replace (slice slots off endKid)
           encap := slice slots endKid endEncap
           wrappedK := slice slots endEncap endWrap }, endWrap)

/-- `_pqdm2_iter_slots` -/
def pqdm2IterSlots (slots : Bytes) : List Slot × Option Exc :=
  scan (pqdm2NextSlot slots) slots.length slots.length 0

/-- `open_multi` -/
def openMulti (P : Primitives) (token myKeyId myPrivateHex sender recipientId : Str) : Py (Option Bytes) :=
  tryExcept [.exception]
    (do
      if !pqdm2Prefix.isPrefixOf token then return none
      let rest := token.drop pqdm2Prefix.length
      match split (chr '.') rest with
      | [hB64, slotsB64, bodyB64] =>
        let header ← P.jsonLoadsBytes (← b64decodeStr hB64)
        let slots ← b64decodeStr slotsB64
        let blob ← b64decodeStr bodyB64
        let kids ← jsonGet header (str "kids") (.arr [])
        let suite ← jsonGet header (str "suite") (.str hybridSuite)
        let aad ← pqdm2Aad P suite sender recipientId kids
        let nonce := blob.take wrapNonceLen
        let ct := blob.drop wrapNonceLen
        let myPriv ← bytesFromhex (.str myPrivateHex)
        let (yielded, stopped) := pqdm2IterSlots slots
        match yielded.find? (fun slot => slot.keyId = myKeyId), stopped with
        | some slot, _ =>
          let shared ← hybridDecap P (.bytes slot.encap) (.bytes myPriv) hkdfInfo
          let messageKey ← P.decrypt (pqdm2WrapKey P shared) nonce slot.wrappedK []
          return some (← P.decrypt messageKey nonce ct aad)
        | none, some exc => .error exc
        | none, none => return none
      | _ => raiseLib .valueError)
    fun _ => return none

end Pqdm
end SkPqc
