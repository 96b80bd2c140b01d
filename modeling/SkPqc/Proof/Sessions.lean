import SkPqc.Model.Sessions
import SkPqc.Proof.EpochWrap

/-!
# Delivery in a session

What a step of a session does is one of five effects (`Effect`, `step_effect`). The logs only grow, and hold what
the functions returned (`logged_run`). From that alone, whatever the network does: a message that was sent is read
by every ratchet of its epoch, at any later time and as often as it arrives, and whoever joins with a wrap to his
own key gets such a ratchet (`delivery`).
-/

namespace SkPqc

open Wire Pqkem Runs

namespace RatchetLayer

variable {L : RatchetLayer} {P : Primitives}

theorem length_of_deriveMessageKey {secret : Bytes} {epoch index : Int} {key : BytesN 32}
    (h : L.deriveMessageKey P secret epoch index = .ok key) : secret.length = epochSecretLen := by
  by_contra hlen
  simp only [deriveMessageKey, checkEpochSecret, if_pos hlen, raise, error_bind] at h
  cases h

/-- A send encrypts under the key of the next index. -/
theorem send_eq_ok {r : RatchetState} {nonce : BytesN 12} {plaintext : Bytes} {packet : Packet} :
    (L.send P r nonce plaintext).1 = .ok packet ↔
      r.epochSecret.length = epochSecretLen ∧ packet.index = r.messageIndex ∧ packet.nonce = nonce ∧
        P.encrypt (L.keyAt P r packet.index) nonce plaintext [] = .ok packet.ct := by
  obtain ⟨index, packetNonce, ct⟩ := packet
  by_cases hlen : r.epochSecret.length = epochSecretLen
  · simp only [send, nextOutboundKey, deriveMessageKey_eq hlen, ok_bind, bind_eq_ok, hlen, true_and]
    constructor
    · rintro ⟨ct', hct, hret⟩
      cases hret
      exact ⟨rfl, rfl, hct⟩
    · rintro ⟨rfl, rfl, hct⟩
      exact ⟨ct, hct, rfl⟩
  · simp only [send, nextOutboundKey, deriveMessageKey, checkEpochSecret, if_pos hlen, raise, error_bind]
    constructor
    · intro h
      cases h
    · rintro ⟨hlen', -⟩
      exact absurd hlen' hlen

/-- A receive decrypts under the key of the index that the packet carries. -/
theorem receive_eq_ok {r : RatchetState} {packet : Packet} {data : Bytes} :
    L.receive P r packet = .ok data ↔ r.epochSecret.length = epochSecretLen ∧
      P.decrypt (L.keyAt P r packet.index) packet.nonce packet.ct [] = .ok data := by
  constructor
  · intro h
    rw [receive, bind_eq_ok] at h
    obtain ⟨key, hkey, hopen⟩ := h
    have hlen := length_of_deriveMessageKey hkey
    rw [messageKey, deriveMessageKey_eq hlen] at hkey
    cases hkey
    exact ⟨hlen, hopen⟩
  · rintro ⟨hlen, hopen⟩
    rw [receive, messageKey, deriveMessageKey_eq hlen]
    exact hopen

/-- A ratchet's key depends on the secret, and on the epoch and the index modulo `2 ^ 64`. -/
theorem keyAt_congr {r r' : RatchetState} {index index' : Int} (hsecret : r.epochSecret = r'.epochSecret)
    (hepoch : r.epoch ≡ r'.epoch [ZMOD 2 ^ 64]) (hindex : index ≡ index' [ZMOD 2 ^ 64]) :
    L.keyAt P r index = L.keyAt P r' index' :=
  congrArg P.hkdf (messageKeyInput_eq_iff.mpr ⟨hsecret, hepoch, hindex⟩)

/-- A send leaves the ratchet with its epoch and secret. -/
theorem send_snd (r : RatchetState) (nonce : BytesN 12) (plaintext : Bytes) :
    (L.send P r nonce plaintext).2.epochSecret = r.epochSecret ∧ (L.send P r nonce plaintext).2.epoch = r.epoch := by
  cases hkey : L.deriveMessageKey P r.epochSecret r.epoch r.messageIndex with
  | error e => simp only [send, nextOutboundKey, hkey, and_self]
  | ok key => simp only [send, nextOutboundKey, hkey, and_self]

end RatchetLayer

namespace Session

section Delivery
variable {ι : Type} {L : RatchetLayer} {P : Primitives} {keys : ι → HybridKeyPair}

/-! ### The logs -/

/-- The logs of wraps and sends hold what the functions returned. -/
structure Logged (L : RatchetLayer) (P : Primitives) (s : Session ι) : Prop where
  wraps : ∀ w ∈ s.wraps, L.wrapEpochSecret P w.coins w.secret w.pub = .ok w.payload
  sent : ∀ m ∈ s.sent, (L.send P m.ratchet m.nonce m.plaintext).1 = .ok m.packet

theorem logged_init : Logged L P (init ι) where
  wraps _ h := absurd h List.not_mem_nil
  sent _ h := absurd h List.not_mem_nil

/-- A sent message is read by every ratchet of its epoch. -/
theorem Logged.receive_sent {s : Session ι} (h : Logged L P s) (haead : P.AeadCorrect) {m : SendEvent ι}
    (hm : m ∈ s.sent) {r : RatchetState} (hsecret : r.epochSecret = m.ratchet.epochSecret)
    (hepoch : r.epoch ≡ m.ratchet.epoch [ZMOD 2 ^ 64]) : L.receive P r m.packet = .ok m.plaintext := by
  obtain ⟨hlen, -, hnonce, hencrypt⟩ := RatchetLayer.send_eq_ok.mp (h.sent m hm)
  rw [RatchetLayer.receive_eq_ok, hsecret, RatchetLayer.keyAt_congr hsecret hepoch rfl, hnonce]
  exact ⟨hlen, haead.decrypt_encrypt _ _ _ _ _ hencrypt⟩

/-- The holder of the private key gets the secret out of a wrap. -/
theorem Logged.unwrap_wrapped {s : Session ι} (h : Logged L P s) (hkem : P.KemCorrect) (haead : P.AeadCorrect)
    {w : WrapEvent ι} (hw : w ∈ s.wraps) {priv : BytesN privateKeyLen} (hkey : IsKeypair P priv w.pub) :
    L.unwrapEpochSecret P w.payload priv = .ok w.secret := by
  obtain ⟨ct, ss, wrapped, hlen, hencap, hencrypt, hpayload⟩ := RatchetLayer.wrapEpochSecret_eq_ok.mp (h.wraps w hw)
  have hwrapped : wrapped.length = RatchetLayer.wrappedSecretLen := by
    rw [haead.length_encrypt _ _ _ _ _ hencrypt, hlen]
  rw [hpayload, RatchetLayer.unwrapEpochSecret_append ct w.coins.nonce hwrapped
    (hybridDecap_hybridEncap hkem hkey hencap), haead.decrypt_encrypt _ _ _ _ _ hencrypt, tryExcept_ok]

/-- The logs of one session are in those of the other. -/
structure Grows (s s' : Session ι) : Prop where
  minted : s.minted ⊆ s'.minted
  wraps : s.wraps ⊆ s'.wraps
  sent : s.sent ⊆ s'.sent

theorem Grows.refl (s : Session ι) : Grows s s := ⟨List.Subset.refl _, List.Subset.refl _, List.Subset.refl _⟩

theorem Grows.trans {s s' s'' : Session ι} (h : Grows s s') (h' : Grows s' s'') : Grows s s'' :=
  ⟨List.Subset.trans h.minted h'.minted, List.Subset.trans h.wraps h'.wraps, List.Subset.trans h.sent h'.sent⟩

/-! ### What a step does -/

variable [DecidableEq ι]

/-- The effects of the steps that change something. -/
inductive Effect (L : RatchetLayer) (P : Primitives) (keys : ι → HybridKeyPair) (s : Session ι) :
    Action ι → Session ι → Prop where
  | start (p : ι) (epoch : Int) (secret : BytesN 32) (now : ℚ) : Effect L P keys s (.start p epoch secret now)
      { s.opened p { epoch := epoch, epochSecret := secret, epochStartedAt := now } with
        minted := (p, secret) :: s.minted }
  | wrap {p : ι} {j : Nat} {r : RatchetState} {coins : WrapCoins} {pub : BytesN publicKeyLen} {payload : Bytes}
      (hr : (s.ratchets p)[j]? = some r) (h : L.wrapEpochSecret P coins r.epochSecret pub = .ok payload) :
      Effect L P keys s (.wrap p j coins pub) { s with wraps := ⟨p, coins, r.epochSecret, pub, payload⟩ :: s.wraps }
  | join {p : ι} {epoch : Int} {payload secret : Bytes} {now : ℚ}
      (h : L.unwrapEpochSecret P payload (keys p).privateKey = .ok secret) :
      Effect L P keys s (.join p epoch payload now)
        (s.opened p { epoch := epoch, epochSecret := secret, epochStartedAt := now })
  | moved {p : ι} {j : Nat} {r : RatchetState} {nonce : BytesN 12} {plaintext : Bytes}
      (hr : (s.ratchets p)[j]? = some r) : Effect L P keys s (.send p j nonce plaintext)
        (s.moved p j (L.send P r nonce plaintext).2)
  | send {p : ι} {j : Nat} {r : RatchetState} {nonce : BytesN 12} {plaintext : Bytes} {packet : Packet}
      (hr : (s.ratchets p)[j]? = some r) (h : (L.send P r nonce plaintext).1 = .ok packet) :
      Effect L P keys s (.send p j nonce plaintext)
        { s.moved p j (L.send P r nonce plaintext).2 with sent := ⟨p, r, nonce, plaintext, packet⟩ :: s.sent }
  | receive {p : ι} {j : Nat} {r : RatchetState} {packet : Packet} {plaintext : Bytes}
      (hr : (s.ratchets p)[j]? = some r) (h : L.receive P r packet = .ok plaintext) :
      Effect L P keys s (.receive p j packet) { s with read := ⟨p, r, packet, plaintext⟩ :: s.read }

variable (L P keys) in
theorem step_effect (s : Session ι) (a : Action ι) :
    (step L P keys s a).2 = s ∨ Effect L P keys s a (step L P keys s a).2 := by
  cases a with
  | start p epoch secret now => exact .inr (.start p epoch secret now)
  | wrap p j coins pub =>
    cases hr : (s.ratchets p)[j]? with
    | none => simp only [step, hr, true_or]
    | some r =>
      cases hwrap : L.wrapEpochSecret P coins r.epochSecret pub with
      | error e => simp only [step, hr, hwrap, true_or]
      | ok payload =>
        simp only [step, hr, hwrap]
        exact .inr (.wrap hr hwrap)
  | join p epoch payload now =>
    cases hjoin : L.unwrapEpochSecret P payload (keys p).privateKey with
    | error e => simp only [step, hjoin, true_or]
    | ok secret =>
      simp only [step, hjoin]
      exact .inr (.join hjoin)
  | send p j nonce plaintext =>
    cases hr : (s.ratchets p)[j]? with
    | none => simp only [step, hr, true_or]
    | some r =>
      cases hsend : (L.send P r nonce plaintext).1 with
      | error e =>
        simp only [step, hr, hsend]
        exact .inr (.moved hr)
      | ok packet =>
        simp only [step, hr, hsend]
        exact .inr (.send hr hsend)
  | receive p j packet =>
    cases hr : (s.ratchets p)[j]? with
    | none => simp only [step, hr, true_or]
    | some r =>
      cases hreceive : L.receive P r packet with
      | error e => simp only [step, hr, hreceive, true_or]
      | ok plaintext =>
        simp only [step, hr, hreceive]
        exact .inr (.receive hr hreceive)

theorem Logged.effect {s s' : Session ι} {a : Action ι} (h : Logged L P s) (heffect : Effect L P keys s a s') :
    Logged L P s' := by
  cases heffect with
  | start => exact ⟨h.wraps, h.sent⟩
  | join => exact ⟨h.wraps, h.sent⟩
  | moved => exact ⟨h.wraps, h.sent⟩
  | receive => exact ⟨h.wraps, h.sent⟩
  | wrap hr hwrap => exact ⟨List.forall_mem_cons.mpr ⟨hwrap, h.wraps⟩, h.sent⟩
  | send hr hsend => exact ⟨h.wraps, List.forall_mem_cons.mpr ⟨hsend, h.sent⟩⟩

theorem Effect.grows {s s' : Session ι} {a : Action ι} (h : Effect L P keys s a s') : Grows s s' := by
  have hsame := Grows.refl s
  cases h with
  | start => exact ⟨List.subset_cons_self _ _, hsame.wraps, hsame.sent⟩
  | wrap => exact ⟨hsame.minted, List.subset_cons_self _ _, hsame.sent⟩
  | send => exact ⟨hsame.minted, hsame.wraps, List.subset_cons_self _ _⟩
  | join => exact ⟨hsame.minted, hsame.wraps, hsame.sent⟩
  | moved => exact ⟨hsame.minted, hsame.wraps, hsame.sent⟩
  | receive => exact ⟨hsame.minted, hsame.wraps, hsame.sent⟩

theorem step_grows (s : Session ι) (a : Action ι) : Grows s (step L P keys s a).2 := by
  rcases step_effect L P keys s a with hsame | heffect
  · rw [hsame]
    exact .refl s
  · exact heffect.grows

variable (L P keys) in
/-- The session after some actions. -/
def reached (actions : List (Action ι)) : Session ι := after (step L P keys) (init ι) actions

theorem logged_reached (actions : List (Action ι)) : Logged L P (reached L P keys actions) := by
  refine after_inv _ (fun s a h => ?_) logged_init actions
  rcases step_effect L P keys s a with hsame | heffect
  · rwa [hsame]
  · exact h.effect heffect

theorem reached_append (actions more : List (Action ι)) :
    reached L P keys (actions ++ more) = after (step L P keys) (reached L P keys actions) more := after_append ..

theorem reached_concat (actions : List (Action ι)) (a : Action ι) :
    reached L P keys (actions ++ [a]) = (step L P keys (reached L P keys actions) a).2 := after_concat ..

theorem grows_later (actions more : List (Action ι)) :
    Grows (reached L P keys actions) (reached L P keys (actions ++ more)) := by
  rw [reached_append]
  exact after_inv (I := Grows (reached L P keys actions)) _ (fun s a hs => hs.trans (step_grows s a)) (.refl _) more

/-! ### A ratchet keeps its place -/

/-- In its place the session has a ratchet of an epoch and a secret. -/
def Holds (s : Session ι) (p : ι) (j : Nat) (epoch : Int) (secret : Bytes) : Prop :=
  ∃ r, (s.ratchets p)[j]? = some r ∧ r.epoch = epoch ∧ r.epochSecret = secret

/-- A new ratchet is at the end. -/
theorem holds_opened (s : Session ι) (p : ι) (r : RatchetState) :
    (s.opened p r).Holds p (s.ratchets p).length r.epoch r.epochSecret := by
  refine ⟨r, ?_, rfl, rfl⟩
  simp only [Session.opened, Function.update_self]
  exact List.getElem?_concat_length

theorem Holds.opened {s : Session ι} {p q : ι} {j : Nat} {epoch : Int} {secret : Bytes}
    (h : s.Holds p j epoch secret) (r : RatchetState) : (s.opened q r).Holds p j epoch secret := by
  obtain ⟨r', hr', hsame⟩ := h
  refine ⟨r', ?_, hsame⟩
  by_cases hp : p = q
  · subst hp
    obtain ⟨hj, -⟩ := List.getElem?_eq_some_iff.mp hr'
    simp only [Session.opened, Function.update_self]
    rwa [List.getElem?_append_left hj]
  · simpa only [Session.opened, Function.update_of_ne hp] using hr'

theorem Holds.moved {s : Session ι} {p q : ι} {j k : Nat} {epoch : Int} {secret : Bytes}
    (h : s.Holds p j epoch secret) {r r' : RatchetState} (hr : (s.ratchets q)[k]? = some r)
    (hsecret : r'.epochSecret = r.epochSecret) (hepoch : r'.epoch = r.epoch) :
    (s.moved q k r').Holds p j epoch secret := by
  obtain ⟨r₀, hr₀, hepoch₀, hsecret₀⟩ := h
  by_cases hp : p = q
  · subst hp
    by_cases hk : k = j
    · subst hk
      cases hr₀.symm.trans hr
      obtain ⟨hj, -⟩ := List.getElem?_eq_some_iff.mp hr₀
      refine ⟨r', ?_, hepoch.trans hepoch₀, hsecret.trans hsecret₀⟩
      simp only [Session.moved, Function.update_self]
      exact List.getElem?_set_self hj
    · refine ⟨r₀, ?_, hepoch₀, hsecret₀⟩
      simp only [Session.moved, Function.update_self]
      rwa [List.getElem?_set_ne hk]
  · refine ⟨r₀, ?_, hepoch₀, hsecret₀⟩
    simpa only [Session.moved, Function.update_of_ne hp] using hr₀

theorem Holds.step {s : Session ι} {p : ι} {j : Nat} {epoch : Int} {secret : Bytes} (h : s.Holds p j epoch secret)
    (a : Action ι) : (step L P keys s a).2.Holds p j epoch secret := by
  rcases step_effect L P keys s a with hsame | heffect
  · rwa [hsame]
  generalize (Session.step L P keys s a).2 = s' at heffect
  cases heffect with
  | start => exact h.opened _
  | join => exact h.opened _
  | wrap => exact h
  | receive => exact h
  | moved hr => exact h.moved hr (RatchetLayer.send_snd _ _ _).1 (RatchetLayer.send_snd _ _ _).2
  | send hr _ => exact h.moved hr (RatchetLayer.send_snd _ _ _).1 (RatchetLayer.send_snd _ _ _).2

theorem Holds.later {actions : List (Action ι)} {p : ι} {j : Nat} {epoch : Int} {secret : Bytes}
    (h : (reached L P keys actions).Holds p j epoch secret) (more : List (Action ι)) :
    (reached L P keys (actions ++ more)).Holds p j epoch secret := by
  rw [reached_append]
  exact after_inv (I := fun s : Session ι => s.Holds p j epoch secret) _ (fun s a hs => hs.step a) h more

/-! ### Delivery -/

theorem step_receive_of_holds {s : Session ι} (h : Logged L P s) (haead : P.AeadCorrect) {m : SendEvent ι}
    (hm : m ∈ s.sent) {p : ι} {j : Nat} {epoch : Int} (hholds : s.Holds p j epoch m.ratchet.epochSecret)
    (hepoch : epoch ≡ m.ratchet.epoch [ZMOD 2 ^ 64]) :
    (step L P keys s (.receive p j m.packet)).1 = .ok (.plaintext m.plaintext) := by
  obtain ⟨r, hr, rfl, hsecret⟩ := hholds
  simp only [step, hr, h.receive_sent haead hm hsecret hepoch]

/-- A join with a wrap that was made for the party gets a ratchet of the wrapped secret, and it stays. -/
theorem holds_joined (hkem : P.KemCorrect) (haead : P.AeadCorrect) {p : ι}
    (hkey : IsKeypair P (keys p).privateKey (keys p).publicKey) {before : List (Action ι)} {w : WrapEvent ι}
    (hw : w ∈ (reached L P keys before).wraps) (hpub : w.pub = (keys p).publicKey) (epoch : Int) (now : ℚ) :
    ∃ j, ∀ later : List (Action ι),
      (reached L P keys (before ++ .join p epoch w.payload now :: later)).Holds p j epoch w.secret := by
  have hunwrap := (logged_reached before).unwrap_wrapped hkem haead hw (hpub ▸ hkey)
  have hjoined : reached L P keys (before ++ [.join p epoch w.payload now]) = (reached L P keys before).opened p
      { epoch := epoch, epochSecret := w.secret, epochStartedAt := now } := by
    rw [reached_concat, step, hunwrap]
  have hholds := holds_opened (reached L P keys before) p
    { epoch := epoch, epochSecret := w.secret, epochStartedAt := now }
  rw [← hjoined] at hholds
  refine ⟨((reached L P keys before).ratchets p).length, fun later => ?_⟩
  have hlater := hholds.later later
  rwa [List.append_assoc, List.singleton_append] at hlater

/-- Whatever is lost, repeated or reordered on the way: a ratchet of the epoch of a message that was sent reads it, at
any later time; and every wrap of the epoch's secret, to a party's own key, gets him such a ratchet, whether he joins
with it after the message was sent or before. -/
theorem delivery (hkem : P.KemCorrect) (haead : P.AeadCorrect)
    (hkeys : ∀ p, IsKeypair P (keys p).privateKey (keys p).publicKey) {actions : List (Action ι)} {m : SendEvent ι}
    (hm : m ∈ (reached L P keys actions).sent) {epoch : Int} (hepoch : epoch ≡ m.ratchet.epoch [ZMOD 2 ^ 64]) (p : ι) :
    (∀ j, (reached L P keys actions).Holds p j epoch m.ratchet.epochSecret → ∀ more : List (Action ι),
      (step L P keys (reached L P keys (actions ++ more)) (.receive p j m.packet)).1 = .ok (.plaintext m.plaintext)) ∧
    (∀ w ∈ (reached L P keys actions).wraps, w.secret = m.ratchet.epochSecret → w.pub = (keys p).publicKey →
      ∀ now, ∃ j, ∀ more : List (Action ι),
        (reached L P keys (actions ++ .join p epoch w.payload now :: more)).Holds p j epoch m.ratchet.epochSecret ∧
        (step L P keys (reached L P keys (actions ++ .join p epoch w.payload now :: more)) (.receive p j m.packet)).1
          = .ok (.plaintext m.plaintext)) ∧
    ∀ before rest w now, actions = before ++ .join p epoch w.payload now :: rest →
      w ∈ (reached L P keys before).wraps → w.secret = m.ratchet.epochSecret → w.pub = (keys p).publicKey →
      ∃ j, (reached L P keys actions).Holds p j epoch m.ratchet.epochSecret ∧ ∀ more : List (Action ι),
        (step L P keys (reached L P keys (actions ++ more)) (.receive p j m.packet)).1
          = .ok (.plaintext m.plaintext) := by
  have hreads : ∀ j, (reached L P keys actions).Holds p j epoch m.ratchet.epochSecret → ∀ more : List (Action ι),
      (step L P keys (reached L P keys (actions ++ more)) (.receive p j m.packet)).1 = .ok (.plaintext m.plaintext) :=
    fun j hholds more =>
      step_receive_of_holds (logged_reached _) haead ((grows_later _ _).sent hm) (hholds.later more) hepoch
  refine ⟨hreads, ?_, ?_⟩
  · intro w hw hsecret hpub now
    obtain ⟨j, hholds⟩ := holds_joined hkem haead (hkeys p) hw hpub epoch now
    rw [hsecret] at hholds
    exact ⟨j, fun more => ⟨hholds more,
      step_receive_of_holds (logged_reached _) haead ((grows_later _ _).sent hm) (hholds more) hepoch⟩⟩
  · rintro before rest w now rfl hw hsecret hpub
    obtain ⟨j, hholds⟩ := holds_joined hkem haead (hkeys p) hw hpub epoch now
    rw [hsecret] at hholds
    exact ⟨j, hholds rest, hreads j (hholds rest)⟩

end Delivery

/-! ### A run of three -/

namespace Example

open WrapExample (P coins)
open StandIn (encapCoins)

inductive Party where
  | alice
  | bob
  | carol
  deriving DecidableEq

def coinsOf : Party → KeypairCoins
  | .alice => StandIn.aliceCoins
  | .bob => StandIn.bobCoins
  | .carol => { seed := .zero 32, mlkem := [] }

def keys (p : Party) : HybridKeyPair := StandIn.keypair StandIn.sums (coinsOf p)

theorem isKeypair_keys (p : Party) : IsKeypair P (keys p).privateKey (keys p).publicKey :=
  StandIn.isKeypair [] StandIn.sums (coinsOf p)

def ratchet : RatchetState := { epoch := 7, epochSecret := (BytesN.zero 32).val, epochStartedAt := 0 }

/-- Bob has an epoch. -/
def started : Session Party := { (init Party).opened .bob ratchet with minted := [(.bob, .zero 32)] }

def wrapEvent (payload : Bytes) : WrapEvent Party :=
  ⟨.bob, coins, (BytesN.zero 32).val, (keys .alice).publicKey, payload⟩

/-- Bob has wrapped it for Alice. -/
def wrapped (payload : Bytes) : Session Party := { started with wraps := [wrapEvent payload] }

/-- Alice has joined. -/
def joined (payload : Bytes) : Session Party := (wrapped payload).opened .alice ratchet

def packet : Packet where
  index := 0
  nonce := (BytesN.zero 12).val
  ct := ascii "hi" ++ (StandIn.tag [(WrapExample.wrapKey.val, coins.nonce.val, [])]
    ((GroupRatchet.layer.keyAt P ratchet 0).val, (BytesN.zero 12).val, [])).val

def sendEvent : SendEvent Party := ⟨.bob, ratchet, .zero 12, ascii "hi", packet⟩

/-- Bob has sent. -/
def sentOne (payload : Bytes) : Session Party :=
  { (joined payload).moved .bob 0 (ratchet.advance 1) with sent := [sendEvent] }

def actions (payload : Bytes) : List (Action Party) :=
  [.start .bob 7 (.zero 32) 0, .wrap .bob 0 coins (keys .alice).publicKey, .join .alice 7 payload 0,
    .send .bob 0 (.zero 12) (ascii "hi")]

theorem step_start :
    step GroupRatchet.layer P keys (init Party) (.start .bob 7 (.zero 32) 0) = (.ok .done, started) := rfl

theorem step_wrap {payload : Bytes}
    (hwrap : GroupRatchet.layer.wrapEpochSecret P coins (BytesN.zero 32).val (keys .alice).publicKey = .ok payload) :
    step GroupRatchet.layer P keys started (.wrap .bob 0 coins (keys .alice).publicKey)
      = (.ok (.payload payload), wrapped payload) := by
  have hr : (started.ratchets .bob)[0]? = some ratchet := rfl
  simp only [step, hr, ratchet, hwrap]
  rfl

theorem step_join {payload : Bytes}
    (hunwrap : GroupRatchet.layer.unwrapEpochSecret P payload (keys .alice).privateKey = .ok (BytesN.zero 32).val) :
    step GroupRatchet.layer P keys (wrapped payload) (.join .alice 7 payload 0) = (.ok .done, joined payload) := by
  simp only [step, hunwrap]
  rfl

theorem send_ratchet : GroupRatchet.layer.send P ratchet (.zero 12) (ascii "hi") = (.ok packet, ratchet.advance 1) := by
  have hresult : (GroupRatchet.layer.send P ratchet (.zero 12) (ascii "hi")).1 = .ok packet :=
    RatchetLayer.send_eq_ok.mpr ⟨rfl, rfl, rfl, rfl⟩
  exact Prod.ext hresult rfl

theorem step_send (payload : Bytes) : step GroupRatchet.layer P keys (joined payload)
    (.send .bob 0 (.zero 12) (ascii "hi")) = (.ok (.packet packet), sentOne payload) := by
  have hr : ((joined payload).ratchets .bob)[0]? = some ratchet := rfl
  simp only [step, hr, send_ratchet]
  rfl

theorem exists_payload : ∃ payload,
    GroupRatchet.layer.wrapEpochSecret P coins (BytesN.zero 32).val (keys .alice).publicKey = .ok payload ∧
      GroupRatchet.layer.unwrapEpochSecret P payload (keys .alice).privateKey = .ok (BytesN.zero 32).val := by
  have hwrap : GroupRatchet.layer.wrapEpochSecret P coins (BytesN.zero 32).val (keys .alice).publicKey = .ok _ :=
    RatchetLayer.wrapEpochSecret_eq_ok.mpr ⟨_, _, _, BytesN.length_val _, WrapExample.hybridEncap_alice, rfl, rfl⟩
  have hlogged : Logged GroupRatchet.layer P (wrapped _) :=
    ⟨List.forall_mem_singleton.mpr hwrap, fun _ h => absurd h List.not_mem_nil⟩
  exact ⟨_, hwrap, hlogged.unwrap_wrapped WrapExample.kemCorrect WrapExample.aeadCorrect List.mem_cons_self
    (isKeypair_keys .alice)⟩

theorem reached_actions {payload : Bytes}
    (hwrap : GroupRatchet.layer.wrapEpochSecret P coins (BytesN.zero 32).val (keys .alice).publicKey = .ok payload)
    (hunwrap : GroupRatchet.layer.unwrapEpochSecret P payload (keys .alice).privateKey = .ok (BytesN.zero 32).val) :
    reached GroupRatchet.layer P keys (actions payload) = sentOne payload := by
  rw [reached, actions, after_cons, step_start, after_cons, step_wrap hwrap, after_cons, step_join hunwrap, after_cons,
    step_send, after_nil]

/-- Alice reads Bob's message with the ratchet she joined with before he sent it, and again with one that she joins
with afterwards. -/
theorem delivery_run : ∃ payload i j,
    (step GroupRatchet.layer P keys (reached GroupRatchet.layer P keys (actions payload))
      (.receive .alice i packet)).1 = .ok (.plaintext (ascii "hi")) ∧
    (step GroupRatchet.layer P keys (reached GroupRatchet.layer P keys (actions payload))
      (.receive .bob 0 packet)).1 = .ok (.plaintext (ascii "hi")) ∧
    (step GroupRatchet.layer P keys (reached GroupRatchet.layer P keys (actions payload ++ [.join .alice 7 payload 5]))
      (.receive .alice j packet)).1 = .ok (.plaintext (ascii "hi")) := by
  obtain ⟨payload, hwrap, hunwrap⟩ := exists_payload
  have hreached := reached_actions hwrap hunwrap
  have hm : sendEvent ∈ (reached GroupRatchet.layer P keys (actions payload)).sent := by
    rw [hreached]
    exact List.mem_cons_self
  have hw : wrapEvent payload ∈ (reached GroupRatchet.layer P keys (actions payload)).wraps := by
    rw [hreached]
    exact List.mem_cons_self
  have hbefore : wrapEvent payload ∈ (reached GroupRatchet.layer P keys ((actions payload).take 2)).wraps := by
    rw [reached, actions, List.take_succ_cons, List.take_succ_cons, List.take_zero, after_cons, step_start, after_cons,
      step_wrap hwrap, after_nil]
    exact List.mem_cons_self
  have hholds : (reached GroupRatchet.layer P keys (actions payload)).Holds .bob 0 7
      sendEvent.ratchet.epochSecret := by
    rw [hreached]
    exact ⟨ratchet.advance 1, rfl, rfl, rfl⟩
  obtain ⟨-, hlate, hearly⟩ := delivery WrapExample.kemCorrect WrapExample.aeadCorrect isKeypair_keys hm
    (Int.ModEq.refl 7) .alice
  have hbob := (delivery WrapExample.kemCorrect WrapExample.aeadCorrect isKeypair_keys hm
    (Int.ModEq.refl 7) .bob).1 0 hholds []
  obtain ⟨i, -, hi⟩ := hearly _ [.send .bob 0 (.zero 12) (ascii "hi")] (wrapEvent payload) 0 rfl hbefore rfl rfl
  obtain ⟨j, hj⟩ := hlate _ hw rfl rfl 5
  have halice := hi []
  rw [List.append_nil] at halice hbob
  exact ⟨payload, i, j, halice, hbob, (hj []).2⟩

end Example

end Session
end SkPqc
