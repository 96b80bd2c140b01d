import SkPqc.Model.Python
import SkPqc.Wire.Urlsafe

/-!
# `anon_queue`: queue addresses and deniable tags

    address = "aqid:" relay "/" base64url(sender_id)
    tag     = HMAC-SHA256(secret, nonce || message)

The address codec is the standard library's base64url around a split at the first slash. HMAC-SHA256 is an
argument of the two functions that use it.
-/

namespace SkPqc
namespace AnonQueue

open Wire

/-! ### Constants -/

abbrev queueIdLen : Nat := 16

def aqidScheme : Str := str "aqid:"

/-! ### Library calls -/

/-- `s.partition(sep)` on a one-character separator. -/
def partition (sep : CodePoint) (s : Str) : Str × Str × Str :=
  match s.dropWhile (· ≠ sep) with
  | [] => (s, [], [])
  | _ :: after => (s.takeWhile (· ≠ sep), [sep], after)

/-- `base64.urlsafe_b64decode(s)` -/
def urlsafeB64decodeStr (s : Str) : Py Bytes :=
  if s.all isAscii then ofOption .binasciiError (urlsafeB64decode s) else raiseLib .valueError

/-- `hmac.HMAC(key, hashes.SHA256())`, updated with the data and finalized. -/
abbrev Hmac := (key data : Bytes) → BytesN 32

/-! ### Queue ids -/

/-- The loop of `new_queue_pair` on what the calls of `os.urandom` give, with what is left of it. It ends at the first
id that is not the recipient's; `none` stands for a loop that goes on. -/
def redraw (recipientId : BytesN queueIdLen) :
    List (BytesN queueIdLen) → Option (BytesN queueIdLen × List (BytesN queueIdLen))
  | [] => none
  | senderId :: draws => if senderId = recipientId then redraw recipientId draws else some (senderId, draws)

/-- `new_queue_pair` -/
def newQueuePair :
    List (BytesN queueIdLen) → Option ((BytesN queueIdLen × BytesN queueIdLen) × List (BytesN queueIdLen))
  | [] => none
  | recipientId :: draws => do
    let (senderId, draws) ← redraw recipientId draws
    return ((recipientId, senderId), draws)

/-! ### Addresses -/

/-- The `=` characters that make the length a multiple of four. -/
def padding (id : Str) : Str := List.replicate ((-(id.length : Int)) % 4).toNat (chr '=')

/-- `encode_aqid` -/
def encodeAqid (relay senderId : PyVal) : Py Str :=
  match relay with
  | .str relay =>
    if relay = [] then raise .anonQueueFormatError [.lit "relay must be a non-empty string"]
    else if relay.contains (chr '/') then raise .anonQueueFormatError [.lit "relay must not contain '/'"]
    else
      match senderId.data? with
      | none => raise .anonQueueFormatError [.lit "sender_id must be bytes, got ", .lit senderId.typeName]
      | some id =>
        if id.length ≠ queueIdLen then
          raise .anonQueueFormatError
            [.lit "sender_id must be ", .nat queueIdLen, .lit " bytes, got ", .nat id.length]
        else .ok (aqidScheme ++ relay ++ str "/" ++ urlsafeText id)
  | _ => raise .anonQueueFormatError [.lit "relay must be a non-empty string"]

/-- `decode_aqid` -/
def decodeAqid (s : PyVal) : Py (Str × Bytes) :=
  match s with
  | .str s =>
    if !aqidScheme.isPrefixOf s then
      raise .anonQueueFormatError [.lit "address must start with '", .str aqidScheme, .lit "'"]
    else
      let body := s.drop aqidScheme.length
      let (relay, sep, id) := partition (chr '/') body
      if sep = [] then raise .anonQueueFormatError [.lit "address must be 'aqid:<relay>/<id>'"]
      else if relay = [] then raise .anonQueueFormatError [.lit "relay must be non-empty"]
      else if id = [] then raise .anonQueueFormatError [.lit "id must be non-empty"]
      else do
        let senderId ← tryExcept [.exception] (urlsafeB64decodeStr (id ++ padding id)) fun exc =>
          raise .anonQueueFormatError ([.lit "id is not valid base64url: "] ++ exc.msg)
        if senderId.length ≠ queueIdLen then
          raise .anonQueueFormatError
            [.lit "decoded id must be ", .nat queueIdLen, .lit " bytes, got ", .nat senderId.length]
        return (relay, senderId)
  | _ => raise .anonQueueFormatError [.lit "address must be a string, got ", .lit s.typeName]

/-! ### Deniable tags -/

/-- A check of `auth_tag`, which gives back the contents of the value it accepts. -/
def expectBytes (text : String) (value : PyVal) : Py Bytes :=
  match value.data? with
  | none => raise .anonQueueFormatError [.lit text]
  | some b => .ok b

/-- `auth_tag` -/
def authTag (hmac : Hmac) (secret message nonce : PyVal) : Py (BytesN 32) := do
  let secret ← expectBytes "secret must be bytes" secret
  let message ← expectBytes "message must be bytes" message
  let nonce ← expectBytes "nonce must be bytes" nonce
  return hmac secret (nonce ++ message)

/-- `verify_tag`. It converts where `auth_tag` checks types, and everything it raises inside counts as `False`. -/
def verifyTag (hmac : Hmac) (secret message nonce tag : PyVal) : Py Bool :=
  match tag.data? with
  | none => return false
  | some tag =>
    tryExcept [.exception]
      (do
        let secret ← secret.toBytes
        let nonce ← nonce.toBytes
        let message ← message.toBytes
        if hmac secret (nonce ++ message) = tag then return true else raiseLib (.foreign "InvalidSignature"))
      fun _ => return false

end AnonQueue
end SkPqc
