import Mathlib.Algebra.Order.Ring.Unbundled.Rat
import SkPqc.Model.Pqkem

/-!
# The epoch ratchets

`group_ratchet` and `dm_ratchet` are one construction under two sets of labels: the epoch secret is
wrapped once per epoch under the hybrid KEM, and the message keys are derived from it by index. A
`RatchetLayer` holds what differs; `GroupRatchet` and `DmRatchet` apply the construction to theirs.

A ratchet object is a `RatchetState`. A method that can change it gives the result and the state it
leaves behind, also when it raises. Times are exact numbers; the clock is an argument.
-/

namespace SkPqc

open Wire Pqkem

/-- The labels and the error class of a ratchet module. -/
structure RatchetLayer where
  error : ExcClass
  infoEpochWrap : Bytes
  infoMessageKey : Bytes
  saltLabel : Bytes
  /-- The text of the check of the public key. -/
  publicKeyText : String
  /-- The text of a failed unwrap. -/
  unwrapText : String

/-- What a wrap draws. -/
structure WrapCoins where
  encap : EncapCoins
  nonce : BytesN 12

namespace RatchetLayer

abbrev epochSecretLen : Nat := 32
abbrev wrapNonceLen : Nat := 12
abbrev wrappedSecretLen : Nat := epochSecretLen + 16
abbrev wrappedPayloadLen : Nat := ciphertextLen + wrapNonceLen + wrappedSecretLen

variable (L : RatchetLayer)

/-- `_epoch_salt` -/
def epochSalt (epoch : Int) : Bytes := L.saltLabel ++ packU64 epoch

/-- What a message-key derivation feeds HKDF. -/
def messageKeyInput (epochSecret : Bytes) (epoch index : Int) : HkdfInput :=
  { salt := L.epochSalt epoch, ikm := epochSecret, info := L.infoMessageKey ++ ascii "/" ++ packU64 index }

/-- What the epoch wrap feeds HKDF. -/
def epochWrapInput (shared : Bytes) : HkdfInput := { salt := [], ikm := shared, info := L.infoEpochWrap }

/-- The check of the epoch secret's length. -/
def checkEpochSecret (epochSecret : Bytes) : Py Unit :=
  if epochSecret.length ≠ epochSecretLen then
    raise L.error
      [.lit "epoch_secret must be ", .nat epochSecretLen, .lit " bytes, got ", .nat epochSecret.length]
  else return ()

/-- `derive_message_key`, `derive_dm_message_key` -/
def deriveMessageKey (P : Primitives) (epochSecret : Bytes) (epoch index : Int) : Py (BytesN 32) := do
  L.checkEpochSecret epochSecret
  return P.hkdf (L.messageKeyInput epochSecret epoch index)

/-- `wrap_epoch_secret`, `wrap_dm_epoch_secret` -/
def wrapEpochSecret (P : Primitives) (coins : WrapCoins) (epochSecret hybridPub : Bytes) : Py Bytes := do
  L.checkEpochSecret epochSecret
  if hybridPub.length ≠ publicKeyLen then
    raise L.error [.lit L.publicKeyText, .lit " hybrid public key must be ", .nat publicKeyLen, .lit " bytes, ",
      .lit "got ", .nat hybridPub.length]
  let (ciphertext, shared) ← hybridEncap P coins.encap (.bytes hybridPub) hkdfInfo
  let wrapKey := P.hkdf (L.epochWrapInput shared)
  let wrapped ← P.encrypt wrapKey coins.nonce epochSecret []
  return ciphertext ++ coins.nonce ++ wrapped

/-- `unwrap_epoch_secret`, `unwrap_dm_epoch_secret` -/
def unwrapEpochSecret (P : Primitives) (payload hybridPriv : Bytes) : Py Bytes := do
  if payload.length ≠ wrappedPayloadLen then
    raise L.error
      [.lit "wrapped epoch payload must be ", .nat wrappedPayloadLen, .lit " bytes, ", .lit "got ",
        .nat payload.length]
  let ciphertext := payload.take ciphertextLen
  let nonce := slice payload ciphertextLen (ciphertextLen + wrapNonceLen)
  let wrapped := payload.drop (ciphertextLen + wrapNonceLen)
  let shared ← hybridDecap P (.bytes ciphertext) (.bytes hybridPriv) hkdfInfo
  let wrapKey := P.hkdf (L.epochWrapInput shared)
  tryExcept [.exception] (P.decrypt wrapKey nonce wrapped []) fun exc =>
    raise L.error ([.lit L.unwrapText, .lit " unwrap failed: "] ++ exc.msg)

end RatchetLayer

/-! ### Ratchet objects -/

def defaultRekeyMsgBound : Int := 50
def defaultRekeyAgeSeconds : ℚ := 7 * 24 * 3600

/-- The fields of `EpochRatchet` and of `DmRatchet`. -/
structure RatchetState where
  epoch : Int
  epochSecret : Bytes
  messageIndex : Int := 0
  rekeyMsgBound : Int := defaultRekeyMsgBound
  rekeyAgeSeconds : ℚ := defaultRekeyAgeSeconds
  /-- By default the time of creation. -/
  epochStartedAt : ℚ
  deriving DecidableEq

/-- `should_rekey`, where `clock` is what `time.time()` reads. -/
def RatchetState.shouldRekey (r : RatchetState) (now : Option ℚ) (clock : ℚ) : Bool :=
  if r.messageIndex ≥ r.rekeyMsgBound then true
  else
    let t := now.getD clock
    t - r.epochStartedAt ≥ r.rekeyAgeSeconds

/-- A method call on a ratchet object. -/
inductive RatchetCall where
  | messageKey (index : Option Int)
  | nextOutboundKey
  | shouldRekey (now : Option ℚ) (clock : ℚ)
  deriving DecidableEq

/-- What a method returns. -/
inductive RatchetReply where
  | key (k : BytesN 32)
  | outbound (index : Int) (k : BytesN 32)
  | rekey (b : Bool)
  deriving DecidableEq

namespace RatchetLayer
variable (L : RatchetLayer)

/-- `message_key` -/
def messageKey (P : Primitives) (r : RatchetState) (index : Option Int) : Py (BytesN 32) :=
  let idx := index.getD r.messageIndex
  L.deriveMessageKey P r.epochSecret r.epoch idx

/-- `next_outbound_key`. The counter moves only after the derivation has returned. -/
def nextOutboundKey (P : Primitives) (r : RatchetState) : Py (Int × BytesN 32) × RatchetState :=
  let idx := r.messageIndex
  match L.deriveMessageKey P r.epochSecret r.epoch idx with
  | .error e => (.error e, r)
  | .ok key => (.ok (idx, key), { r with messageIndex := r.messageIndex + 1 })

/-- One method call: what it returns or raises, and the object after it. -/
def exec (P : Primitives) (r : RatchetState) : RatchetCall → Py RatchetReply × RatchetState
  | .messageKey index => (do return .key (← L.messageKey P r index), r)
  | .nextOutboundKey =>
    let (result, r) := L.nextOutboundKey P r
    (do let (index, key) ← result; return .outbound index key, r)
  | .shouldRekey now clock => (.ok (.rekey (r.shouldRekey now clock)), r)

end RatchetLayer

/-! ### `group_ratchet` -/

namespace GroupRatchet

def layer : RatchetLayer where
  error := .groupRatchetError
  infoEpochWrap := ascii "skchat/group-ratchet/epoch-wrap/v1"
  infoMessageKey := ascii "skchat/group-ratchet/msg/v1"
  saltLabel := ascii "skchat/epoch/"
  publicKeyText := "member"
  unwrapText := "epoch-secret"

/-- `derive_message_key` -/
def deriveMessageKey (P : Primitives) (epochSecret : Bytes) (epoch index : Int) : Py (BytesN 32) :=
  layer.deriveMessageKey P epochSecret epoch index

/-- `wrap_epoch_secret` -/
def wrapEpochSecret (P : Primitives) (coins : WrapCoins) (epochSecret memberHybridPub : Bytes) : Py Bytes :=
  layer.wrapEpochSecret P coins epochSecret memberHybridPub

/-- `unwrap_epoch_secret` -/
def unwrapEpochSecret (P : Primitives) (payload memberHybridPriv : Bytes) : Py Bytes :=
  layer.unwrapEpochSecret P payload memberHybridPriv

end GroupRatchet

abbrev EpochRatchet := RatchetState

namespace EpochRatchet

/-- `message_key` -/
def messageKey (P : Primitives) (r : EpochRatchet) (index : Option Int) : Py (BytesN 32) :=
  GroupRatchet.layer.messageKey P r index

/-- `next_outbound_key` -/
def nextOutboundKey (P : Primitives) (r : EpochRatchet) : Py (Int × BytesN 32) × EpochRatchet :=
  GroupRatchet.layer.nextOutboundKey P r

end EpochRatchet

/-! ### `dm_ratchet` -/

namespace DmRatchet

def layer : RatchetLayer where
  error := .dmRatchetError
  infoEpochWrap := ascii "skchat/dm-ratchet/epoch-wrap/v1"
  infoMessageKey := ascii "skchat/dm-ratchet/msg/v1"
  saltLabel := ascii "skchat/dm-epoch/"
  publicKeyText := "peer"
  unwrapText := "dm epoch-secret"

/-- `derive_dm_message_key` -/
def deriveDmMessageKey (P : Primitives) (epochSecret : Bytes) (epoch index : Int) : Py (BytesN 32) :=
  layer.deriveMessageKey P epochSecret epoch index

/-- `wrap_dm_epoch_secret` -/
def wrapDmEpochSecret (P : Primitives) (coins : WrapCoins) (epochSecret peerHybridPub : Bytes) : Py Bytes :=
  layer.wrapEpochSecret P coins epochSecret peerHybridPub

/-- `unwrap_dm_epoch_secret` -/
def unwrapDmEpochSecret (P : Primitives) (payload peerHybridPriv : Bytes) : Py Bytes :=
  layer.unwrapEpochSecret P payload peerHybridPriv

end DmRatchet

abbrev DmRatchet := RatchetState

namespace DmRatchet

/-- `message_key` -/
def messageKey (P : Primitives) (r : DmRatchet) (index : Option Int) : Py (BytesN 32) :=
  layer.messageKey P r index

/-- `next_outbound_key` -/
def nextOutboundKey (P : Primitives) (r : DmRatchet) : Py (Int × BytesN 32) × DmRatchet :=
  layer.nextOutboundKey P r

end DmRatchet
end SkPqc
