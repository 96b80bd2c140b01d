import SkPqc.Proof.Provenance
import SkPqc.Proof.Sessions

/-!
# Who holds an epoch

A party comes to a secret by drawing it or by a wrap to its own public key from a party that has it already
(`Entrusted`). In every run whose steps AES-GCM and the KEM stand up to (`Trusts`), each ratchet's owner was
entrusted with its secret (`custody`), and each message that a party reads was sent, in its epoch and with its
index, by a party that was entrusted too (`authenticity`). So nobody to whom an epoch's secret was never wrapped
reads any of its messages.
-/

namespace SkPqc

open Wire Pqkem Runs Schemes

namespace RatchetModule

/-- The derivation of a message key. -/
def messageKey : RatchetModule → BytesN 32 → Int → Int → Derivation
  | group => .groupMessageKey
  | dm => .dmMessageKey

theorem input_messageKey (M : RatchetModule) (secret : BytesN 32) (epoch index : Int) :
    (M.messageKey secret epoch index).input = M.ratchet.messageKeyInput secret epoch index := by
  cases M <;> rfl

theorem layer_messageKey_ne_combiner (M : RatchetModule) (secret : BytesN 32) (epoch index : Int) :
    (M.messageKey secret epoch index).layer ≠ .combiner := by
  cases M <;> exact Layer.noConfusion

/-- A message key and a wrap key of the module are derived from different inputs. -/
theorem messageKeyInput_ne_input_wrapKey (M : RatchetModule) {secret : Bytes}
    (hlen : secret.length = RatchetLayer.epochSecretLen) (epoch index : Int) (ss : BytesN 32) :
    M.ratchet.messageKeyInput secret epoch index ≠ (M.wrapKey ss).input := by
  intro h
  have hinfo := congrArg HkdfInput.info ((M.input_messageKey ⟨secret, hlen⟩ epoch index).trans h)
  have hlayer :=
    Derivation.layer_eq_of_info_eq (M.layer_messageKey_ne_combiner _ _ _) (layer_wrapKey_ne_combiner ss) hinfo
  cases M <;> cases hlayer

end RatchetModule

namespace Session

section Custody
variable {ι : Type} {M : RatchetModule} {P : Primitives} {keys : ι → HybridKeyPair}

/-- The parties that came to a secret: who drew it, and whom one of them wrapped it to. -/
inductive Entrusted (keys : ι → HybridKeyPair) (s : Session ι) (secret : Bytes) : ι → Prop where
  | minted {p : ι} {k : BytesN 32} (h : (p, k) ∈ s.minted) (hk : k.val = secret) : Entrusted keys s secret p
  | wrapped {p : ι} {w : WrapEvent ι} (hw : w ∈ s.wraps) (hsecret : w.secret = secret)
      (hpub : w.pub = (keys p).publicKey) (hfrom : Entrusted keys s secret w.party) : Entrusted keys s secret p

theorem Entrusted.grows {s s' : Session ι} {secret : Bytes} {p : ι} (h : Entrusted keys s secret p)
    (hgrows : Grows s s') : Entrusted keys s' secret p := by
  induction h with
  | minted hk hsecret => exact .minted (hgrows.minted hk) hsecret
  | wrapped hw hsecret hpub _ ih => exact .wrapped (hgrows.wraps hw) hsecret hpub ih

/-- The call that made a wrap. -/
def WrapEvent.call (M : RatchetModule) (w : WrapEvent ι) : SealCall := .wrap M w.coins w.secret w.pub

/-- What a send seals. -/
def SendEvent.sealing (M : RatchetModule) (m : SendEvent ι) : Sealing KeySource Bytes Bytes Bytes Bytes where
  source := .derived (M.ratchet.messageKeyInput m.ratchet.epochSecret m.ratchet.epoch m.packet.index)
  nonce := m.packet.nonce
  aad := []
  body := m.packet.ct
  data := m.plaintext

/-- What was sealed in a session, in wraps and in messages. -/
def made (M : RatchetModule) (P : Primitives) (s : Session ι) : Set (Sealing KeySource Bytes Bytes Bytes Bytes) :=
  sealings P (s.wraps.map (WrapEvent.call M)) ∪ {x | ∃ m ∈ s.sent, x = m.sealing M}

/-- What an action decrypts. -/
def tries (M : RatchetModule) (P : Primitives) (keys : ι → HybridKeyPair) (s : Session ι) :
    Action ι → Set (Attempt KeySource Bytes Bytes Bytes)
  | .join p _ payload _ => M.unwrapTries P payload (keys p).privateKey
  | .receive p j packet => {a | ∃ r, (s.ratchets p)[j]? = some r ∧
      a = ⟨.derived (M.ratchet.messageKeyInput r.epochSecret r.epoch packet.index), packet.nonce, [], packet.ct⟩}
  | _ => ∅

/-- What is relied on in a step. AES-GCM accepts, of what the action decrypts, only what was sealed in the session so
far, and no two keys in use meet. A private key gets the KEM secret of a wrap only out of a wrap to its own public
key. -/
structure Trusts (M : RatchetModule) (P : Primitives) (keys : ι → HybridKeyPair) (s : Session ι) (a : Action ι) :
    Prop where
  aead : P.cipher.Guards (made M P s) (tries M P keys s a)
  kem : ∀ p epoch payload now, a = .join p epoch payload now → ∀ w ∈ s.wraps, ∀ ct ss,
    hybridEncap P w.coins.encap (.bytes w.pub) hkdfInfo = .ok (ct, ss) →
    hybridDecap P (.bytes (payload.take ciphertextLen)) (.bytes (keys p).privateKey) hkdfInfo = .ok ss →
    IsKeypair P (keys p).privateKey w.pub

/-- The message that a read is of: of the same epoch and index, with the same nonce, ciphertext and plaintext. -/
structure Reads (e : ReadEvent ι) (m : SendEvent ι) : Prop where
  secret : m.ratchet.epochSecret = e.ratchet.epochSecret
  epoch : m.ratchet.epoch ≡ e.ratchet.epoch [ZMOD 2 ^ 64]
  index : m.packet.index ≡ e.packet.index [ZMOD 2 ^ 64]
  nonce : m.packet.nonce = e.packet.nonce
  ct : m.packet.ct = e.packet.ct
  plaintext : m.plaintext = e.plaintext

/-- What every trusted run keeps. -/
structure Kept (M : RatchetModule) (P : Primitives) (keys : ι → HybridKeyPair) (s : Session ι) : Prop where
  logged : Logged M.ratchet P s
  held : ∀ p, ∀ r ∈ s.ratchets p, Entrusted keys s r.epochSecret p
  wraps : ∀ w ∈ s.wraps, Entrusted keys s w.secret w.party
  sent : ∀ m ∈ s.sent, Entrusted keys s m.ratchet.epochSecret m.party
  read : ∀ e ∈ s.read, Entrusted keys s e.ratchet.epochSecret e.party ∧ ∃ m ∈ s.sent, Reads e m

theorem Logged.undoes {s : Session ι} (h : Logged M.ratchet P s) (haead : P.AeadCorrect) :
    P.cipher.Undoes (made M P s) := by
  refine haead.undoes ?_
  rintro x (⟨hencrypts, -⟩ | ⟨m, hm, rfl⟩)
  · exact hencrypts
  · obtain ⟨-, -, hnonce, hencrypt⟩ := RatchetLayer.send_eq_ok.mp (h.sent m hm)
    show P.encrypt _ m.packet.nonce m.plaintext [] = .ok m.packet.ct
    rw [hnonce]
    exact hencrypt

/-- Whoever gets a secret out of a payload had it wrapped to his own public key. -/
theorem Logged.exists_wrap_of_join {s : Session ι} (h : Logged M.ratchet P s) (hkem : P.KemCorrect)
    (haead : P.AeadCorrect) (hkeys : ∀ p, IsKeypair P (keys p).privateKey (keys p).publicKey) {p : ι} {epoch : Int}
    {payload secret : Bytes} {now : ℚ} (htrusts : Trusts M P keys s (.join p epoch payload now))
    (hunwrap : M.ratchet.unwrapEpochSecret P payload (keys p).privateKey = .ok secret) :
    ∃ w ∈ s.wraps, w.secret = secret ∧ w.pub = (keys p).publicKey := by
  obtain ⟨-, ss, hdecap, hopen⟩ := RatchetModule.unwrapEpochSecret_eq_ok.mp hunwrap
  have hresult := Primitives.result_eq_some (a := wrapAttempt (M.wrapKey ss) _ [] _).mpr hopen
  rcases (htrusts.aead.result_eq_some_iff (h.undoes haead) ⟨ss, hdecap, rfl⟩).mp hresult with hmade | ⟨m, hm, heq⟩
  · obtain ⟨-, call, hcall, -, d, hinput, hwraps⟩ :=
      (mem_sealings_wrap (RatchetModule.layer_wrapKey_ne_combiner ss)).mp hmade
    obtain ⟨w, hw, rfl⟩ := List.mem_map.mp hcall
    obtain ⟨ct, ss', -, hencap, rfl, -, -, rfl⟩ := hwraps
    rw [RatchetModule.input_wrapKey, RatchetModule.input_wrapKey] at hinput
    obtain rfl : ss' = ss := BytesN.ext (congrArg HkdfInput.ikm hinput)
    have hown := htrusts.kem p epoch payload now rfl w hw ct ss' hencap hdecap
    exact ⟨w, hw, rfl, publicKey_unique hkem hown (hkeys p)⟩
  · have hlen := (RatchetLayer.send_eq_ok.mp (h.sent m hm)).1
    have hsource : KeySource.derived (M.wrapKey ss).input = .derived _ := congrArg (fun x => x.source) heq
    exact absurd (KeySource.derived.inj hsource).symm (M.messageKeyInput_ne_input_wrapKey hlen _ _ ss)

/-- Whatever a receive returns was sent. -/
theorem Logged.exists_sent_of_receive {s : Session ι} (h : Logged M.ratchet P s) (haead : P.AeadCorrect)
    {p : ι} {j : Nat}
    {r : RatchetState} {packet : Packet} {plaintext : Bytes} (htrusts : Trusts M P keys s (.receive p j packet))
    (hr : (s.ratchets p)[j]? = some r) (hreceive : M.ratchet.receive P r packet = .ok plaintext) :
    ∃ m ∈ s.sent, Reads ⟨p, r, packet, plaintext⟩ m := by
  obtain ⟨hlen, hopen⟩ := RatchetLayer.receive_eq_ok.mp hreceive
  have hresult := Primitives.result_eq_some
    (a := ⟨.derived (M.ratchet.messageKeyInput r.epochSecret r.epoch packet.index), packet.nonce, [],
      packet.ct⟩).mpr hopen
  rcases (htrusts.aead.result_eq_some_iff (h.undoes haead) ⟨r, hr, rfl⟩).mp hresult with hmade | ⟨m, hm, heq⟩
  · -- a message key is no wrap key
    obtain ⟨-, call, hcall, hmakes⟩ := hmade
    obtain ⟨w, hw, rfl⟩ := List.mem_map.mp hcall
    rcases hmakes with ⟨d, hsource, ct, ss, -, -, rfl, -⟩ | ⟨key, hsource, -⟩
    · exact absurd (KeySource.derived.inj hsource) (M.messageKeyInput_ne_input_wrapKey hlen _ _ ss)
    · cases hsource
  · simp only [SendEvent.sealing, Sealing.mk.injEq, Attempt.mk.injEq, KeySource.derived.injEq,
      RatchetLayer.messageKeyInput_eq_iff, true_and] at heq
    obtain ⟨⟨⟨hsecret, hepoch, hindex⟩, hnonce, hct⟩, hplaintext⟩ := heq
    exact ⟨m, hm, hsecret.symm, hepoch.symm, hindex.symm, hnonce.symm, hct.symm, hplaintext.symm⟩

/-! ### What a trusted step keeps -/

variable [DecidableEq ι]

theorem mem_ratchets_opened {s : Session ι} {p q : ι} {r r' : RatchetState} (h : r ∈ (s.opened q r').ratchets p) :
    r ∈ s.ratchets p ∨ p = q ∧ r = r' := by
  by_cases hp : p = q
  · subst hp
    simp only [opened, Function.update_self, List.mem_append, List.mem_singleton] at h
    exact h.imp_right fun heq => ⟨rfl, heq⟩
  · simp only [opened, Function.update_of_ne hp] at h
    exact .inl h

theorem mem_ratchets_moved {s : Session ι} {p q : ι} {j : Nat} {r r' : RatchetState}
    (h : r ∈ (s.moved q j r').ratchets p) : r ∈ s.ratchets p ∨ p = q ∧ r = r' := by
  by_cases hp : p = q
  · subst hp
    simp only [moved, Function.update_self] at h
    exact (List.mem_or_eq_of_mem_set h).imp_right fun heq => ⟨rfl, heq⟩
  · simp only [moved, Function.update_of_ne hp] at h
    exact .inl h

variable (hkem : P.KemCorrect) (haead : P.AeadCorrect)
  (hkeys : ∀ p, IsKeypair P (keys p).privateKey (keys p).publicKey)

include hkem haead hkeys

theorem Kept.effect {s s' : Session ι} {a : Action ι} (h : Kept M P keys s) (htrusts : Trusts M P keys s a)
    (heffect : Effect M.ratchet P keys s a s') : Kept M P keys s' := by
  have hgrows := heffect.grows
  have hwraps : ∀ w ∈ s.wraps, Entrusted keys s' w.secret w.party := fun w hw => (h.wraps w hw).grows hgrows
  have hsent : ∀ m ∈ s.sent, Entrusted keys s' m.ratchet.epochSecret m.party := fun m hm => (h.sent m hm).grows hgrows
  have hheld : ∀ p, ∀ r ∈ s.ratchets p, Entrusted keys s' r.epochSecret p := fun p r hr => (h.held p r hr).grows hgrows
  have hread : ∀ e ∈ s.read, Entrusted keys s' e.ratchet.epochSecret e.party ∧ ∃ m ∈ s'.sent, Reads e m := by
    intro e he
    obtain ⟨hreader, m, hm, hreads⟩ := h.read e he
    exact ⟨hreader.grows hgrows, m, hgrows.sent hm, hreads⟩
  have hlogged := h.logged.effect heffect
  cases heffect with
  | start p epoch secret now =>
    refine ⟨hlogged, fun q r hr => ?_, hwraps, hsent, hread⟩
    rcases mem_ratchets_opened hr with hold | ⟨rfl, rfl⟩
    · exact hheld q r hold
    · exact .minted List.mem_cons_self rfl
  | wrap hr hwrap =>
    have hparty := hheld _ _ (List.mem_of_getElem? hr)
    exact ⟨hlogged, hheld, List.forall_mem_cons.mpr ⟨hparty, hwraps⟩, hsent, hread⟩
  | join hunwrap =>
    refine ⟨hlogged, fun q r hr => ?_, hwraps, hsent, hread⟩
    rcases mem_ratchets_opened hr with hold | ⟨rfl, rfl⟩
    · exact hheld q r hold
    · obtain ⟨w, hw, hsecret, hpub⟩ := h.logged.exists_wrap_of_join hkem haead hkeys htrusts hunwrap
      exact .wrapped hw hsecret hpub (hsecret ▸ hwraps w hw)
  | @moved p j r nonce plaintext hr =>
    refine ⟨hlogged, fun q r' hr' => ?_, hwraps, hsent, hread⟩
    rcases mem_ratchets_moved hr' with hold | ⟨rfl, rfl⟩
    · exact hheld q r' hold
    · rw [(RatchetLayer.send_snd r nonce plaintext).1]
      exact hheld _ _ (List.mem_of_getElem? hr)
  | @send p j r nonce plaintext packet hr hsend =>
    have hparty := hheld _ _ (List.mem_of_getElem? hr)
    refine ⟨hlogged, fun q r' hr' => ?_, hwraps, List.forall_mem_cons.mpr ⟨hparty, hsent⟩, hread⟩
    rcases mem_ratchets_moved hr' with hold | ⟨rfl, rfl⟩
    · exact hheld q r' hold
    · rw [(RatchetLayer.send_snd r nonce plaintext).1]
      exact hparty
  | receive hr hreceive =>
    have hreader := hheld _ _ (List.mem_of_getElem? hr)
    have hexists := h.logged.exists_sent_of_receive haead htrusts hr hreceive
    exact ⟨hlogged, hheld, hwraps, hsent, List.forall_mem_cons.mpr ⟨⟨hreader, hexists⟩, hread⟩⟩

/-- What holds of every run that the cryptography stands up to. -/
theorem kept_reached {actions : List (Action ι)}
    (htrusts : Along (step M.ratchet P keys) (Trusts M P keys) (init ι) actions) :
    Kept M P keys (reached M.ratchet P keys actions) := by
  have hnone : ∀ {α : Type} {C : α → Prop}, ∀ x ∈ ([] : List α), C x := fun x hx => absurd hx List.not_mem_nil
  have hinit : Kept M P keys (init ι) := ⟨logged_init, fun _ => hnone, hnone, hnone, hnone⟩
  refine after_inv_along _ (fun s a h hstep => ?_) hinit htrusts
  rcases step_effect M.ratchet P keys s a with hsame | heffect
  · rwa [hsame]
  · exact h.effect hkem haead hkeys hstep heffect

/-- Whoever has a ratchet drew its secret, or had it wrapped to his own key by a party of which the same holds. -/
theorem custody {actions : List (Action ι)}
    (htrusts : Along (step M.ratchet P keys) (Trusts M P keys) (init ι) actions) {p : ι} {r : RatchetState}
    (hr : r ∈ (reached M.ratchet P keys actions).ratchets p) :
    Entrusted keys (reached M.ratchet P keys actions) r.epochSecret p :=
  (kept_reached hkem haead hkeys htrusts).held p r hr

/-- Every read is of a message that was sent, in the same epoch with the same index, and both the sender and the
reader were entrusted with the epoch's secret. -/
theorem authenticity {actions : List (Action ι)}
    (htrusts : Along (step M.ratchet P keys) (Trusts M P keys) (init ι) actions) {e : ReadEvent ι}
    (he : e ∈ (reached M.ratchet P keys actions).read) :
    ∃ m ∈ (reached M.ratchet P keys actions).sent, Reads e m ∧
      Entrusted keys (reached M.ratchet P keys actions) e.ratchet.epochSecret m.party ∧
      Entrusted keys (reached M.ratchet P keys actions) e.ratchet.epochSecret e.party := by
  have hkept := kept_reached hkem haead hkeys htrusts
  obtain ⟨hreader, m, hm, hreads⟩ := hkept.read e he
  exact ⟨m, hm, hreads, hreads.secret ▸ hkept.sent m hm, hreader⟩

/-- A secret that its members draw, and wrap to members only, is held by members only; so nobody else reads a message
of the epoch. -/
theorem exclusion {actions : List (Action ι)}
    (htrusts : Along (step M.ratchet P keys) (Trusts M P keys) (init ι) actions) {secret : BytesN 32} {members : Set ι}
    (hminted : ∀ q, (q, secret) ∈ (reached M.ratchet P keys actions).minted → q ∈ members)
    (hwrapped : ∀ w ∈ (reached M.ratchet P keys actions).wraps, w.secret = secret → w.party ∈ members →
      ∀ q, w.pub = (keys q).publicKey → q ∈ members) :
    (∀ q, ∀ r ∈ (reached M.ratchet P keys actions).ratchets q, r.epochSecret = secret → q ∈ members) ∧
      ∀ e ∈ (reached M.ratchet P keys actions).read, e.ratchet.epochSecret = secret → e.party ∈ members := by
  have hkept := kept_reached hkem haead hkeys htrusts
  have hmember : ∀ q, Entrusted keys (reached M.ratchet P keys actions) secret q → q ∈ members := by
    intro q h
    induction h with
    | minted hk hsecret => exact hminted _ (BytesN.ext hsecret ▸ hk)
    | wrapped hw hsecret hpub _ ih => exact hwrapped _ hw hsecret ih _ hpub
  constructor
  · intro q r hr hsecret
    exact hmember q (hsecret ▸ hkept.held q r hr)
  · intro e he hsecret
    exact hmember _ (hsecret ▸ (hkept.read e he).1)

end Custody

/-! ### A run of three -/

namespace Example

open WrapExample (P coins)

variable {payload : Bytes}

theorem hkdf_ne : P.hkdf (GroupRatchet.layer.epochWrapInput WrapExample.ss)
    ≠ P.hkdf (GroupRatchet.layer.messageKeyInput (BytesN.zero 32).val 7 0) := by decide

/-- The one wrap and the one message take their keys from two sources. -/
theorem injOn_key {s : Session Party} (hwraps : ∀ w ∈ s.wraps, w = wrapEvent payload)
    (hsent : ∀ m ∈ s.sent, m = sendEvent) :
    Set.InjOn P.cipher.key (Cipher.sourcesOf (made .group P s)) := by
  have hform : ∀ i ∈ Cipher.sourcesOf (made .group P s),
      i = .derived (GroupRatchet.layer.epochWrapInput WrapExample.ss) ∨
        i = .derived (GroupRatchet.layer.messageKeyInput (BytesN.zero 32).val 7 0) := by
    rintro _ ⟨x, ⟨-, call, hcall, hmakes⟩ | ⟨m, hm, rfl⟩, rfl⟩
    · obtain ⟨w, hw, rfl⟩ := List.mem_map.mp hcall
      obtain rfl := hwraps w hw
      rcases hmakes with ⟨d, hsource, ct, ss, -, hencap, rfl, -⟩ | ⟨_, -, hdraws⟩
      · cases WrapExample.hybridEncap_alice.symm.trans hencap
        exact .inl hsource
      · cases hdraws
    · obtain rfl := hsent m hm
      exact .inr rfl
  intro i hi i' hi' hkey
  rcases hform i hi with rfl | rfl <;> rcases hform i' hi' with rfl | rfl
  · rfl
  · exact absurd (BytesN.ext hkey) hkdf_ne
  · exact absurd (BytesN.ext hkey) hkdf_ne.symm
  · rfl

theorem trusts (payload : Bytes) {s : Session Party} {a : Action Party}
    (hwraps : ∀ w ∈ s.wraps, w = wrapEvent payload) (hsent : ∀ m ∈ s.sent, m = sendEvent)
    (htried : ∀ t ∈ tries .group P keys s a, ∃ data, ⟨t, data⟩ ∈ made .group P s)
    (hjoin : ∀ p epoch payload now, a = .join p epoch payload now → p = .alice) : Trusts .group P keys s a where
  aead := .of_made htried (injOn_key hwraps hsent)
  kem p epoch payload' now ha w hw _ _ _ _ := by
    obtain rfl := hjoin p epoch payload' now ha
    rw [hwraps w hw]
    exact isKeypair_keys .alice

def readEvent : ReadEvent Party := ⟨.alice, ratchet, packet, ascii "hi"⟩

/-- Alice has read. -/
def readOne (payload : Bytes) : Session Party := { sentOne payload with read := [readEvent] }

/-- Bob opens an epoch, wraps it for Alice, she joins, he sends, she reads. -/
def run (payload : Bytes) : List (Action Party) := actions payload ++ [.receive .alice 0 packet]

theorem step_receive (payload : Bytes) : step GroupRatchet.layer P keys (sentOne payload) (.receive .alice 0 packet)
    = (.ok (.plaintext (ascii "hi")), readOne payload) := by
  have hr : ((sentOne payload).ratchets .alice)[0]? = some ratchet := rfl
  have hreceive : GroupRatchet.layer.receive P ratchet packet = .ok (ascii "hi") :=
    RatchetLayer.receive_eq_ok.mpr ⟨rfl, WrapExample.aeadCorrect.decrypt_encrypt _ _ _ _ _ rfl⟩
  simp only [step, hr, hreceive]
  rfl

theorem trusted {payload : Bytes}
    (hwrap : GroupRatchet.layer.wrapEpochSecret P coins (BytesN.zero 32).val (keys .alice).publicKey = .ok payload)
    (hunwrap : GroupRatchet.layer.unwrapEpochSecret P payload (keys .alice).privateKey = .ok (BytesN.zero 32).val) :
    Along (step GroupRatchet.layer P keys) (Trusts .group P keys) (init Party) (run payload) := by
  have hnone : ∀ {α : Type} {C : α → Prop}, ∀ x ∈ ([] : List α), C x := fun x hx => absurd hx List.not_mem_nil
  have hwraps : ∀ {s : Session Party}, s.wraps = [wrapEvent payload] → ∀ w ∈ s.wraps, w = wrapEvent payload :=
    fun h w hw => List.mem_singleton.mp (h ▸ hw)
  have hsent : ∀ {s : Session Party}, s.sent = [sendEvent] → ∀ m ∈ s.sent, m = sendEvent :=
    fun h m hm => List.mem_singleton.mp (h ▸ hm)
  have hcall : .wrap .group coins (BytesN.zero 32).val (keys .alice).publicKey
      ∈ (wrapped payload).wraps.map (WrapEvent.call .group) := List.mem_cons_self
  refine ⟨trusts payload hnone hnone (fun _ h => absurd h id) (fun _ _ _ _ h => by cases h), ?_⟩
  rw [step_start]
  refine ⟨trusts payload hnone hnone (fun _ h => absurd h id) (fun _ _ _ _ h => by cases h), ?_⟩
  rw [step_wrap hwrap]
  refine ⟨trusts payload (hwraps rfl) hnone (fun a ha => ?_) (fun _ _ _ _ h => by cases h; rfl), ?_⟩
  · obtain ⟨data, hdata⟩ := RatchetModule.unwrapTries_of_wrap WrapExample.kemCorrect (isKeypair_keys .alice) hcall hwrap
      ha
    exact ⟨data, .inl hdata⟩
  rw [step_join hunwrap]
  refine ⟨trusts payload (hwraps rfl) hnone (fun _ h => absurd h id) (fun _ _ _ _ h => by cases h), ?_⟩
  rw [step_send]
  refine ⟨trusts payload (hwraps rfl) (hsent rfl) (fun a ha => ?_) (fun _ _ _ _ h => by cases h), trivial⟩
  obtain ⟨r, hr, rfl⟩ := ha
  cases hr
  exact ⟨ascii "hi", .inr ⟨sendEvent, List.mem_cons_self, rfl⟩⟩

theorem exists_run : ∃ payload,
    Along (step GroupRatchet.layer P keys) (Trusts .group P keys) (init Party) (run payload) ∧
    reached GroupRatchet.layer P keys (run payload) = readOne payload := by
  obtain ⟨payload, hwrap, hunwrap⟩ := exists_payload
  refine ⟨payload, trusted hwrap hunwrap, ?_⟩
  rw [run, reached_concat, reached_actions hwrap hunwrap, step_receive]

theorem ratchet_mem (payload : Bytes) : ratchet ∈ (readOne payload).ratchets .alice := List.mem_cons_self

/-- Alice came to her ratchet by a wrap. -/
theorem custody_run : ∃ payload, ratchet ∈ (reached GroupRatchet.layer P keys (run payload)).ratchets .alice ∧
    Entrusted keys (reached GroupRatchet.layer P keys (run payload)) (BytesN.zero 32).val .alice := by
  obtain ⟨payload, htrusted, hreached⟩ := exists_run
  have hr : ratchet ∈ (reached GroupRatchet.layer P keys (run payload)).ratchets .alice := by
    rw [hreached]
    exact ratchet_mem payload
  exact ⟨payload, hr, custody (M := .group) WrapExample.kemCorrect WrapExample.aeadCorrect isKeypair_keys htrusted hr⟩

/-- What Alice has read is what Bob sent. -/
theorem authenticity_run : ∃ payload, readEvent ∈ (reached GroupRatchet.layer P keys (run payload)).read ∧
    ∃ m ∈ (reached GroupRatchet.layer P keys (run payload)).sent, Reads readEvent m := by
  obtain ⟨payload, htrusted, hreached⟩ := exists_run
  have he : readEvent ∈ (reached GroupRatchet.layer P keys (run payload)).read := by
    rw [hreached]
    exact List.mem_cons_self
  obtain ⟨m, hm, hreads, -⟩ :=
    authenticity (M := .group) WrapExample.kemCorrect WrapExample.aeadCorrect isKeypair_keys htrusted he
  exact ⟨payload, he, m, hm, hreads⟩

/-- Carol, to whom nobody wrapped the secret, has no ratchet of it. -/
theorem exclusion_run : ∃ payload, ratchet ∈ (reached GroupRatchet.layer P keys (run payload)).ratchets .alice ∧
    ∀ r ∈ (reached GroupRatchet.layer P keys (run payload)).ratchets .carol, r.epochSecret ≠ (BytesN.zero 32).val := by
  obtain ⟨payload, htrusted, hreached⟩ := exists_run
  have hne : (keys .alice).publicKey ≠ (keys .carol).publicKey := by decide
  have hminted : ∀ q, (q, BytesN.zero 32) ∈ (reached GroupRatchet.layer P keys (run payload)).minted →
      q ∈ ({q | q ≠ .carol} : Set Party) := by
    rw [hreached]
    intro q hq
    cases List.mem_singleton.mp hq
    exact Party.noConfusion
  have hwrapped : ∀ w ∈ (reached GroupRatchet.layer P keys (run payload)).wraps, w.secret = (BytesN.zero 32).val →
      w.party ∈ ({q | q ≠ .carol} : Set Party) →
      ∀ q, w.pub = (keys q).publicKey → q ∈ ({q | q ≠ .carol} : Set Party) := by
    rw [hreached]
    rintro w hw - - q hpub rfl
    cases List.mem_singleton.mp hw
    exact hne hpub
  obtain ⟨hholders, -⟩ := exclusion (M := .group) WrapExample.kemCorrect WrapExample.aeadCorrect isKeypair_keys htrusted
    hminted hwrapped
  refine ⟨payload, ?_, fun r hr hsecret => hholders .carol r hr hsecret rfl⟩
  rw [hreached]
  exact ratchet_mem payload

end Example

end Session
end SkPqc
