import SkPqc.Model.Ratchet

/-!
# Sessions over the ratchets

`send` and `receive` are the two functions with which the DM example uses a ratchet. `step` is what the parties of
a session do with them and with the wraps: open an epoch, pass its secret on, join, send, receive. The network is
free to lose, repeat, reorder, misdeliver and make up what it delivers: a party joins with any bytes and receives
any packet. A step that raises changes nothing but what the method itself changed.

The logs of a `Session` are of the model, no party reads them.
-/

namespace SkPqc

open Wire Pqkem

/-- What `send` ships: `(index, nonce, ct)`. -/
structure Packet where
  index : Int
  nonce : Bytes
  ct : Bytes
  deriving DecidableEq

namespace RatchetLayer
variable (L : RatchetLayer)

/-- `send`, where `nonce` is what `os.urandom(12)` draws. -/
def send (P : Primitives) (r : RatchetState) (nonce : BytesN 12) (plaintext : Bytes) : Py Packet × RatchetState :=
  let (result, r) := L.nextOutboundKey P r
  (do
    let (index, key) ← result
    let ct ← P.encrypt key nonce plaintext []
    return { index := index, nonce := nonce, ct := ct }, r)

/-- `receive` -/
def receive (P : Primitives) (r : RatchetState) (packet : Packet) : Py Bytes := do
  let key ← L.messageKey P r (some packet.index)
  P.decrypt key packet.nonce packet.ct []

end RatchetLayer

namespace Session

/-- A wrap that returned: who wrapped which secret to which public key. -/
structure WrapEvent (ι : Type) where
  party : ι
  coins : WrapCoins
  secret : Bytes
  pub : BytesN publicKeyLen
  payload : Bytes

/-- A send that returned, with the ratchet it was called on. -/
structure SendEvent (ι : Type) where
  party : ι
  ratchet : RatchetState
  nonce : BytesN 12
  plaintext : Bytes
  packet : Packet

/-- A receive that returned, with the ratchet it was called on. -/
structure ReadEvent (ι : Type) where
  party : ι
  ratchet : RatchetState
  packet : Packet
  plaintext : Bytes

end Session

open Session

/-- The ratchets of the parties, in the order they were opened, and the logs. -/
structure Session (ι : Type) where
  ratchets : ι → List RatchetState
  minted : List (ι × BytesN 32)
  wraps : List (WrapEvent ι)
  sent : List (SendEvent ι)
  read : List (ReadEvent ι)

namespace Session

def init (ι : Type) : Session ι := { ratchets := fun _ => [], minted := [], wraps := [], sent := [], read := [] }

/-- What a party does; `j` is the place of one of its ratchets. -/
inductive Action (ι : Type) where
  /-- `DmRatchet(epoch, new_epoch_secret())` at a time -/
  | start (p : ι) (epoch : Int) (secret : BytesN 32) (now : ℚ)
  | wrap (p : ι) (j : Nat) (coins : WrapCoins) (pub : BytesN publicKeyLen)
  /-- `DmRatchet(epoch, unwrap_dm_epoch_secret(payload, private_key))` at a time -/
  | join (p : ι) (epoch : Int) (payload : Bytes) (now : ℚ)
  | send (p : ι) (j : Nat) (nonce : BytesN 12) (plaintext : Bytes)
  | receive (p : ι) (j : Nat) (packet : Packet)

/-- What a party gets back. -/
inductive Reply where
  | done
  | payload (b : Bytes)
  | packet (p : Packet)
  | plaintext (b : Bytes)

variable {ι : Type} [DecidableEq ι]

/-- A party opens another ratchet. -/
def opened (s : Session ι) (p : ι) (r : RatchetState) : Session ι :=
  { s with ratchets := Function.update s.ratchets p (s.ratchets p ++ [r]) }

/-- A ratchet of a party is in another state. -/
def moved (s : Session ι) (p : ι) (j : Nat) (r : RatchetState) : Session ι :=
  { s with ratchets := Function.update s.ratchets p ((s.ratchets p).set j r) }

/-- One step: the result, and the session after it. -/
def step (L : RatchetLayer) (P : Primitives) (keys : ι → HybridKeyPair) (s : Session ι) :
    Action ι → Py Reply × Session ι
  | .start p epoch secret now =>
    (.ok .done, { s.opened p { epoch := epoch, epochSecret := secret, epochStartedAt := now } with
      minted := (p, secret) :: s.minted })
  | .wrap p j coins pub =>
    match (s.ratchets p)[j]? with
    | none => (.ok .done, s)
    | some r =>
      match L.wrapEpochSecret P coins r.epochSecret pub with
      | .error e => (.error e, s)
      | .ok payload => (.ok (.payload payload), { s with wraps := ⟨p, coins, r.epochSecret, pub, payload⟩ :: s.wraps })
  | .join p epoch payload now =>
    match L.unwrapEpochSecret P payload (keys p).privateKey with
    | .error e => (.error e, s)
    | .ok secret => (.ok .done, s.opened p { epoch := epoch, epochSecret := secret, epochStartedAt := now })
  | .send p j nonce plaintext =>
    match (s.ratchets p)[j]? with
    | none => (.ok .done, s)
    | some r =>
      let moved := s.moved p j (L.send P r nonce plaintext).2
      match (L.send P r nonce plaintext).1 with
      | .error e => (.error e, moved)
      | .ok packet => (.ok (.packet packet), { moved with sent := ⟨p, r, nonce, plaintext, packet⟩ :: s.sent })
  | .receive p j packet =>
    match (s.ratchets p)[j]? with
    | none => (.ok .done, s)
    | some r =>
      match L.receive P r packet with
      | .error e => (.error e, s)
      | .ok plaintext => (.ok (.plaintext plaintext), { s with read := ⟨p, r, packet, plaintext⟩ :: s.read })

end Session
end SkPqc
