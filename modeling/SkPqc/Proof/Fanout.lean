import SkPqc.Proof.FanoutSeal
import SkPqc.Proof.StandIn

/-!
# The fanout envelope: what an open returns

`openMulti_edit` settles every open of an envelope that carries the sealed body: it gives the body exactly
when a slot unlocks the message key and the AAD rebuilt from the header is the sealed one, and `None`
otherwise. With the sealed header and slots the AAD always agrees, and whether a slot unlocks is a question
about the list of recipients (`Admits`).
-/

namespace SkPqc
namespace Pqdm

open Wire Pqkem

/-! ### Opening what carries the sealed body -/

/-- The AES-GCM ciphertexts that a run of `sealMulti` makes: the body, and the message key in each slot. -/
def SealMultiMakes (P : Primitives) (coins : SealMultiCoins) (body : Bytes) (recipients : List Recipient)
    (sender recipientId : Str) (key nonce aad ciphertext : Bytes) : Prop :=
  (∃ kids, recipients.mapM (getItem (str "key_id")) = .ok kids ∧
      pqdm2Aad P (.str hybridSuite) sender recipientId (.arr kids) = .ok aad ∧ key = coins.messageKey ∧
      nonce = coins.nonce ∧ P.encrypt key nonce body aad = .ok ciphertext) ∨
    ∃ pub ct ss, Encapsulates P coins recipients pub ct ss ∧ key = pqdm2WrapKey P ss ∧ nonce = coins.nonce ∧
      aad = [] ∧ P.encrypt key nonce coins.messageKey aad = .ok ciphertext

/-- `e'` carries the body of `e` and slots of `e`, in any order, under any header. -/
structure Edits (e e' : Envelope) : Prop where
  slots : ∀ slot ∈ e'.slots, slot ∈ e.slots
  nonce : e'.nonce = e.nonce
  ct : e'.ct = e.ct

section Open
variable {P : Primitives} {coins : SealMultiCoins} {body : Bytes} {recipients : List Recipient}
  {sender recipientId : Str} {e e' : Envelope}

theorem Seals.exists_recipient (h : Seals P coins body recipients sender recipientId e) {slot : PackedSlot}
    (hslot : slot ∈ e.slots) : ∃ r ∈ recipients, SealedFor P coins recipients r slot := by
  obtain ⟨i, hi, rfl⟩ := List.getElem_of_mem hslot
  have hlen := h.slots.length_eq
  exact ⟨recipients[i], List.getElem_mem _, h.slots.get _ _⟩

/-- The private key of the slot's recipient unlocks the message key. -/
theorem Seals.unlocks (h : Seals P coins body recipients sender recipientId e) (hkem : P.KemCorrect)
    (haead : P.AeadCorrect) (hedit : Edits e e') {myKeyId : Str} {slot : PackedSlot}
    (hfind : e'.slots.find? (fun slot => slot.keyId = myKeyId) = some slot) {r : Recipient}
    (hslot : SealedFor P coins recipients r slot) {pub : BytesN publicKeyLen} (hpub : HasPublicKey r pub)
    {priv : BytesN privateKeyLen} (hkey : IsKeypair P priv pub) :
    e'.Unlocks P myKeyId priv coins.messageKey := by
  obtain ⟨-, pub', ss, hpub', ⟨i, r', hr', hpub'', hencap⟩, hwrapped⟩ := hslot
  obtain rfl := hpub.unique hpub'
  refine ⟨slot, ss, hfind, hybridDecap_hybridEncap hkem hkey hencap, ?_⟩
  rw [hedit.nonce, h.nonce]
  exact haead.decrypt_encrypt _ _ _ _ _ hwrapped

/-- A slot opens to the message key, and only under the wrap key that sealed it. -/
theorem SealedFor.of_decrypt {r : Recipient} {slot : PackedSlot} (hslot : SealedFor P coins recipients r slot)
    (haead : P.AeadCorrect) (hsound : P.AeadSound (SealMultiMakes P coins body recipients sender recipientId))
    {ss' : BytesN 32} {nonce K : Bytes} (hopen : P.decrypt (pqdm2WrapKey P ss') nonce slot.wrappedK [] = .ok K) :
    K = coins.messageKey ∧ ∃ pub ss, HasPublicKey r pub ∧ Encapsulates P coins recipients pub slot.encap ss ∧
      pqdm2WrapKey P ss' = pqdm2WrapKey P ss := by
  obtain ⟨-, pub, ss, hpub, hencap, hwrapped⟩ := hslot
  obtain ⟨hkey, hnonce, -⟩ := hsound _ _ _ _ (.inr ⟨pub, _, ss, hencap, rfl, rfl, rfl, hwrapped⟩) _ _ _ _ hopen
  rw [hkey, hnonce, haead.decrypt_encrypt _ _ _ _ _ hwrapped] at hopen
  exact ⟨(Except.ok.inj hopen).symm, pub, ss, hpub, hencap, BytesN.ext hkey⟩

theorem Seals.of_unlocks (h : Seals P coins body recipients sender recipientId e) (haead : P.AeadCorrect)
    (hsound : P.AeadSound (SealMultiMakes P coins body recipients sender recipientId)) (hedit : Edits e e')
    {myKeyId : Str} {priv K : Bytes} (hunlocks : e'.Unlocks P myKeyId priv K) : K = coins.messageKey := by
  obtain ⟨slot, ss', hfind, -, hopen⟩ := hunlocks
  obtain ⟨r, -, hslot⟩ := h.exists_recipient (hedit.slots slot (List.mem_of_find?_eq_some hfind))
  exact (hslot.of_decrypt haead hsound hopen).1

/-- An open gives a body exactly when a slot unlocks the message key and the header gives the sealed AAD,
and then it is the body that was sealed. -/
theorem openMulti_edit (h : Seals P coins body recipients sender recipientId e) (haead : P.AeadCorrect)
    (hsound : P.AeadSound (SealMultiMakes P coins body recipients sender recipientId)) (hedit : Edits e e')
    {myKeyId myPrivateHex sender' recipientId' : Str} {body' : Bytes} :
    openMulti P e'.token myKeyId myPrivateHex sender' recipientId' = .ok (some body') ↔
      body' = body ∧ (∃ priv, fromHex myPrivateHex = some priv ∧ e'.Unlocks P myKeyId priv coins.messageKey) ∧
        headerAad P e'.header sender' recipientId' = sealedAad P sender recipientId e.keyIds := by
  obtain ⟨aad, haad, hct⟩ := h.body
  rw [openMulti_token, hedit.nonce, hedit.ct, h.nonce]
  constructor
  · rintro ⟨aad', priv, K, haad', hpriv, hunlocks, hopen⟩
    obtain rfl := h.of_unlocks haead hsound hedit hunlocks
    have hmade : SealMultiMakes P coins body recipients sender recipientId coins.messageKey coins.nonce aad e.ct :=
      .inl ⟨_, kids_of_forall₂ h.slots, haad, rfl, rfl, hct⟩
    obtain ⟨-, -, rfl⟩ := hsound _ _ _ _ hmade _ _ _ _ hopen
    rw [haead.decrypt_encrypt _ _ _ _ _ hct] at hopen
    exact ⟨(Except.ok.inj hopen).symm, ⟨priv, hpriv, hunlocks⟩, haad'.trans haad.symm⟩
  · rintro ⟨rfl, ⟨priv, hpriv, hunlocks⟩, haad'⟩
    exact ⟨aad, priv, coins.messageKey, haad'.trans haad, hpriv, hunlocks, haead.decrypt_encrypt _ _ _ _ _ hct⟩

/-- Where only one body can come out, and under one condition, `None` is what comes out otherwise. -/
theorem openMulti_eq_none_iff {token myKeyId myPrivateHex : Str} {c : Prop}
    (hopen : ∀ body', openMulti P token myKeyId myPrivateHex sender recipientId = .ok (some body') ↔ body' = body ∧ c) :
    openMulti P token myKeyId myPrivateHex sender recipientId = .ok none ↔ ¬c := by
  constructor
  · intro hnone hc
    have hbody := (hopen body).mpr ⟨rfl, hc⟩
    rw [hnone] at hbody
    cases hbody
  · intro hc
    obtain ⟨o, ho⟩ := openMulti_returns P token myKeyId myPrivateHex sender recipientId
    cases o with
    | none => exact ho
    | some body' => exact absurd ((hopen body').mp ho).2 hc

/-! ### Who may open -/

/-- The first recipient with the key id has the public key of the private key. -/
def Admits (P : Primitives) (recipients : List Recipient) (myKeyId myPrivateHex : Str) : Prop :=
  ∃ r pub, ∃ priv : BytesN privateKeyLen, recipients.find? (fun r => keyIdOf r = some myKeyId) = some r ∧
    HasPublicKey r pub ∧ fromHex myPrivateHex = some priv.val ∧ IsKeypair P priv pub

/-- The private key recovers no secret but those encapsulated to its public key. -/
def ExactFor (P : Primitives) (coins : SealMultiCoins) (recipients : List Recipient) (myPrivateHex : Str) : Prop :=
  ∀ priv : BytesN privateKeyLen, fromHex myPrivateHex = some priv.val →
    KemExact P (Encapsulates P coins recipients) priv

/-- What the wrap keys are derived from, in a run of `sealMulti` and in opens of its slots. -/
def WrapInputs (P : Primitives) (coins : SealMultiCoins) (recipients : List Recipient) (myPrivateHex : Str) :
    Set HkdfInput :=
  { i | ∃ pub ct ss, Encapsulates P coins recipients pub ct ss ∧ (i = pqdm2WrapKeyInput ss ∨
    ∃ priv ss', fromHex myPrivateHex = some priv ∧ hybridDecap P (.bytes ct) (.bytes priv) hkdfInfo = .ok ss' ∧
      i = pqdm2WrapKeyInput ss') }

/-- The first slot of a key id is the slot of the first recipient with it. -/
theorem Seals.find?_slots (h : Seals P coins body recipients sender recipientId e) (myKeyId : Str) :
    Option.Rel (SealedFor P coins recipients) (recipients.find? fun r => keyIdOf r = some myKeyId)
      (e.slots.find? fun slot => slot.keyId = myKeyId) := by
  refine find?_of_forall₂ h.slots fun r slot hslot => ?_
  simp only [hslot.1, Option.some.injEq]

/-- The first recipient's own key unlocks the message key, and no other key does. -/
theorem Seals.unlocks_iff_admits (h : Seals P coins body recipients sender recipientId e) (hkem : P.KemCorrect)
    (haead : P.AeadCorrect) (hsound : P.AeadSound (SealMultiMakes P coins body recipients sender recipientId))
    (hedit : Edits e e') (hslots : e'.slots = e.slots) {myKeyId myPrivateHex : Str}
    (hexact : ExactFor P coins recipients myPrivateHex)
    (hhkdf : Set.InjOn P.hkdf (WrapInputs P coins recipients myPrivateHex)) :
    (∃ priv, fromHex myPrivateHex = some priv ∧ e'.Unlocks P myKeyId priv coins.messageKey) ↔
      Admits P recipients myKeyId myPrivateHex := by
  have hfirst := h.find?_slots myKeyId
  constructor
  · rintro ⟨priv, hpriv, slot, ss', hfind, hdecap, hopen⟩
    rw [hslots] at hfind
    rw [hfind] at hfirst
    obtain ⟨r, hr, hslot⟩ := rel_some_right hfirst
    obtain ⟨-, pub, ss, hpub, hencap, hwrap⟩ := hslot.of_decrypt haead hsound hopen
    -- equal wrap keys are equal secrets, and only the recipient's key recovers the secret
    have hinput := hhkdf ⟨pub, _, ss, hencap, .inr ⟨priv, ss', hpriv, hdecap, rfl⟩⟩
      ⟨pub, _, ss, hencap, .inl rfl⟩ hwrap
    obtain rfl : ss' = ss := BytesN.ext (congrArg HkdfInput.ikm hinput)
    obtain ⟨-, -, priv, -, -, -, -, hdata, -⟩ := hybridDecap_eq_ok.mp hdecap
    cases Option.some.inj hdata
    exact ⟨r, pub, priv, hr, hpub, hpriv, hexact priv hpriv pub _ _ hencap hdecap⟩
  · rintro ⟨r, pub, priv, hr, hpub, hpriv, hkey⟩
    rw [hr] at hfirst
    obtain ⟨slot, hfind, hslot⟩ := rel_some_left hfirst
    rw [← hslots] at hfind
    exact ⟨priv, hpriv, h.unlocks hkem haead hedit hfind hslot hpub hkey⟩

theorem edits_header (e : Envelope) (header : Bytes) : Edits e { e with header := header } where
  slots _ hslot := hslot
  nonce := rfl
  ct := rfl

/-- With the sealed slots under any header, an open gives the body to whom the recipients admit when the
header gives the sealed AAD. -/
theorem Seals.openMulti_header (h : Seals P coins body recipients sender recipientId e) (hkem : P.KemCorrect)
    (haead : P.AeadCorrect) (hsound : P.AeadSound (SealMultiMakes P coins body recipients sender recipientId))
    {myKeyId myPrivateHex : Str} (hexact : ExactFor P coins recipients myPrivateHex)
    (hhkdf : Set.InjOn P.hkdf (WrapInputs P coins recipients myPrivateHex)) {header : Bytes}
    {sender' recipientId' : Str} {body' : Bytes} :
    openMulti P { e with header := header }.token myKeyId myPrivateHex sender' recipientId' = .ok (some body') ↔
      body' = body ∧ Admits P recipients myKeyId myPrivateHex ∧
        headerAad P header sender' recipientId' = sealedAad P sender recipientId e.keyIds := by
  rw [openMulti_edit h haead hsound (edits_header e header),
    h.unlocks_iff_admits hkem haead hsound (edits_header e header) rfl hexact hhkdf]

/-- A device that the recipients admit gets the body. -/
theorem Seals.openMulti_admits (h : Seals P coins body recipients sender recipientId e) (hkem : P.KemCorrect)
    (haead : P.AeadCorrect) {myKeyId myPrivateHex : Str} (hadmits : Admits P recipients myKeyId myPrivateHex) :
    openMulti P e.token myKeyId myPrivateHex sender recipientId = .ok (some body) := by
  obtain ⟨r, pub, priv, hfind, hpub, hpriv, hkey⟩ := hadmits
  have hfirst := h.find?_slots myKeyId
  rw [hfind] at hfirst
  obtain ⟨slot, hslot, hsealed⟩ := rel_some_left hfirst
  have hunlocks := h.unlocks hkem haead (edits_header e e.header) hslot hsealed hpub hkey
  obtain ⟨aad, haad, hct⟩ := h.body
  rw [openMulti_token, h.nonce]
  exact ⟨aad, priv.val, _, h.headerAad_eq.trans haad, hpriv, hunlocks, haead.decrypt_encrypt _ _ _ _ _ hct⟩

/-- With the sealed parties a token opens to the body for whom the recipients admit, and to `None` for
everyone else. -/
theorem openMulti_sealMulti {token : Str} (hkem : P.KemCorrect) (haead : P.AeadCorrect)
    (hseal : sealMulti P coins body recipients sender recipientId = .ok token)
    (hsound : P.AeadSound (SealMultiMakes P coins body recipients sender recipientId)) {myKeyId myPrivateHex : Str}
    (hexact : ExactFor P coins recipients myPrivateHex)
    (hhkdf : Set.InjOn P.hkdf (WrapInputs P coins recipients myPrivateHex)) :
    (Admits P recipients myKeyId myPrivateHex →
        openMulti P token myKeyId myPrivateHex sender recipientId = .ok (some body)) ∧
      (¬Admits P recipients myKeyId myPrivateHex →
        openMulti P token myKeyId myPrivateHex sender recipientId = .ok none) := by
  obtain ⟨e, rfl, h⟩ := exists_envelope haead hseal
  have hopen : ∀ body', openMulti P e.token myKeyId myPrivateHex sender recipientId = .ok (some body') ↔
      body' = body ∧ Admits P recipients myKeyId myPrivateHex ∧ _ := fun _ =>
    h.openMulti_header hkem haead hsound hexact hhkdf
  constructor
  · exact h.openMulti_admits hkem haead
  · intro hnot
    rw [openMulti_eq_none_iff hopen]
    intro hcond
    exact hnot hcond.1

/-- A listed device opens the token exactly when the first recipient with its key id has its public key: no
slot after that one is tried. -/
theorem openMulti_listed_iff {token : Str} (hkem : P.KemCorrect) (haead : P.AeadCorrect)
    (hseal : sealMulti P coins body recipients sender recipientId = .ok token)
    (hsound : P.AeadSound (SealMultiMakes P coins body recipients sender recipientId)) {r : Recipient}
    (hr : r ∈ recipients) {keyId : Str} (hkeyId : keyIdOf r = some keyId) {pub : BytesN publicKeyLen}
    (hpub : HasPublicKey r pub) {priv : BytesN privateKeyLen} (hkey : IsKeypair P priv pub) {privateHex : Str}
    (hpriv : fromHex privateHex = some priv.val) (hexact : ExactFor P coins recipients privateHex)
    (hhkdf : Set.InjOn P.hkdf (WrapInputs P coins recipients privateHex)) :
    openMulti P token keyId privateHex sender recipientId = .ok (some body) ↔
      ∀ first, recipients.find? (fun r => keyIdOf r = some keyId) = some first →
        ∃ key, HasPublicKey first key ∧ HasPublicKey r key := by
  obtain ⟨e, rfl, h⟩ := exists_envelope haead hseal
  have hopen : openMulti P e.token keyId privateHex sender recipientId = .ok (some body) ↔
      body = body ∧ Admits P recipients keyId privateHex ∧ _ := h.openMulti_header hkem haead hsound hexact hhkdf
  rw [hopen]
  constructor
  · rintro ⟨-, ⟨r₀, pub₀, priv₀, hfind, hpub₀, hpriv₀, hkey₀⟩, -⟩ first hfirst
    cases hfind.symm.trans hfirst
    obtain rfl : priv = priv₀ := BytesN.ext (Option.some.inj (hpriv.symm.trans hpriv₀))
    rw [publicKey_unique hkem hkey hkey₀] at hpub
    exact ⟨pub₀, hpub₀, hpub⟩
  · intro hfirst
    obtain ⟨first, hfind⟩ : ∃ first, recipients.find? (fun r => keyIdOf r = some keyId) = some first := by
      rw [← Option.isSome_iff_exists, List.find?_isSome]
      exact ⟨r, hr, by simp [hkeyId]⟩
    obtain ⟨key, hkeyFirst, hkeyR⟩ := hfirst first hfind
    rw [hkeyR.unique hpub] at hkeyFirst
    exact ⟨rfl, ⟨first, pub, priv, hfind, hkeyFirst, hpriv, hkey⟩, h.headerAad_eq⟩

end Open

/-! ### Runs -/

namespace FanoutExample

open StandIn (aliceCoins bobCoins encapCoins)

def alice : HybridKeyPair := StandIn.keypair StandIn.sums aliceCoins

def bob : HybridKeyPair := StandIn.keypair StandIn.sums bobCoins

def recipient (keyId : Str) (keys : HybridKeyPair) : Recipient :=
  [(str "key_id", .str keyId), (str "hybrid_public_hex", .str (hex keys.publicKey))]

def coins : SealMultiCoins where
  messageKey := ⟨List.replicate 32 7, rfl⟩
  nonce := .zero 12
  encap _ := encapCoins

theorem keyIdOf_recipient (keyId : Str) (keys : HybridKeyPair) : keyIdOf (recipient keyId keys) = some keyId := rfl

theorem hasPublicKey_recipient (keyId : Str) (keys : HybridKeyPair) :
    HasPublicKey (recipient keyId keys) keys.publicKey := ⟨_, rfl, fromHex_hex _⟩

def IsName (s : Str) : Prop := s.all isAscii = true ∧ (utf8 s).length ≤ 255

instance (s : Str) : Decidable (IsName s) := inferInstanceAs (Decidable (_ ∧ _))

theorem IsName.scalar {s : Str} (h : IsName s) : Scalar s := scalar_of_isAscii h.1

variable (k₁ k₂ sender recipientId : Str)

/-- One body for alice under `k₁` and bob under `k₂`. -/
def recipients : List Recipient := [recipient k₁ alice, recipient k₂ bob]

def secret (keys : HybridKeyPair) : BytesN 32 := StandIn.sumSecret encapCoins keys.publicKey hkdfInfo

def slotKey (keys : HybridKeyPair) : BytesN 32 := pqdm2WrapKey (StandIn.primitives StandIn.sums []) (secret keys)

def bodyAad : Bytes :=
  aadBytes (StandIn.primitives StandIn.sums []) (parties hybridSuite sender recipientId) (sortStrs [k₁, k₂]).flatten

def P : Primitives := StandIn.primitives StandIn.sums
  [(coins.messageKey.val, coins.nonce.val, bodyAad k₁ k₂ sender recipientId),
    ((slotKey alice).val, coins.nonce.val, []), ((slotKey bob).val, coins.nonce.val, [])]

theorem hybridEncap_eq (keys : HybridKeyPair) : hybridEncap (P k₁ k₂ sender recipientId) encapCoins
    (.bytes keys.publicKey) hkdfInfo = .ok (StandIn.encapCt StandIn.sums encapCoins keys.publicKey, secret keys) :=
  StandIn.hybridEncap_sums _ _ _ _

theorem of_encapsulates {pub : BytesN publicKeyLen} {ct : BytesN ciphertextLen} {ss : BytesN 32}
    (h : Encapsulates (P k₁ k₂ sender recipientId) coins (recipients k₁ k₂) pub ct ss) :
    ∃ keys, (keys = alice ∨ keys = bob) ∧ pub = keys.publicKey ∧
      ct = StandIn.encapCt StandIn.sums encapCoins keys.publicKey ∧ ss = secret keys := by
  obtain ⟨i, r, hr, hpub, hencap⟩ := h
  obtain ⟨keyId, keys, hkeys, rfl⟩ : ∃ keyId keys, (keys = alice ∨ keys = bob) ∧ r = recipient keyId keys := by
    have hmem := List.mem_of_getElem? hr
    simp only [recipients, List.mem_cons, List.not_mem_nil, or_false] at hmem
    rcases hmem with rfl | rfl
    · exact ⟨k₁, alice, .inl rfl, rfl⟩
    · exact ⟨k₂, bob, .inr rfl, rfl⟩
  obtain rfl := hpub.unique (hasPublicKey_recipient keyId keys)
  cases (hybridEncap_eq k₁ k₂ sender recipientId keys).symm.trans hencap
  exact ⟨keys, hkeys, rfl, rfl, rfl⟩

theorem aeadSound {body : Bytes} : (P k₁ k₂ sender recipientId).AeadSound
      (SealMultiMakes (P k₁ k₂ sender recipientId) coins body (recipients k₁ k₂) sender recipientId) := by
  apply StandIn.aeadSound StandIn.sums (by simp)
  rintro key nonce aad c (⟨kids, hkids, haad, rfl, rfl, hc⟩ | ⟨pub, ct, ss, hencap, rfl, rfl, rfl, hc⟩)
  · cases hkids
    have hsealed : sealedAad (P k₁ k₂ sender recipientId) sender recipientId [k₁, k₂] = .ok aad := haad
    obtain ⟨-, -, rfl⟩ := scalar_of_sealedAad hsealed
    exact ⟨List.mem_cons_self, _, hc⟩
  · obtain ⟨keys, hkeys, -, -, rfl⟩ := of_encapsulates k₁ k₂ sender recipientId hencap
    refine ⟨?_, _, hc⟩
    rcases hkeys with rfl | rfl
    · exact List.mem_cons_of_mem _ List.mem_cons_self
    · exact List.mem_cons_of_mem _ (List.mem_cons_of_mem _ List.mem_cons_self)

variable {k₁ k₂ sender recipientId}

theorem exists_token (h₁ : IsName k₁) (h₂ : IsName k₂) (hsender : Scalar sender) (hrecipientId : Scalar recipientId)
    (body : Bytes) :
    ∃ token, sealMulti (P k₁ k₂ sender recipientId) coins body (recipients k₁ k₂) sender recipientId = .ok token := by
  have hslot : ∀ {keyId : Str} (i : Nat) (keys : HybridKeyPair), IsName keyId →
      ∃ b, sealSlot (P k₁ k₂ sender recipientId) coins i (recipient keyId keys) = .ok b := by
    intro keyId i keys hname
    exact ⟨_, sealSlot_eq_ok.mpr ⟨keyId, keys.publicKey, _, _, _, keyIdOf_recipient _ _, hname.scalar, hname.2,
      hasPublicKey_recipient _ _, hybridEncap_eq _ _ _ _ keys, rfl, rfl⟩⟩
  obtain ⟨b₁, hb₁⟩ := hslot 0 alice h₁
  obtain ⟨b₂, hb₂⟩ := hslot 1 bob h₂
  have hregion : sealSlots (P k₁ k₂ sender recipientId) coins 0 (recipients k₁ k₂) = .ok (b₁ ++ (b₂ ++ [])) := by
    simp only [recipients, sealSlots, hb₁, hb₂, ok_bind]
    rfl
  have hnames : ∀ kid ∈ [k₁, k₂], Scalar kid := by
    simp only [List.mem_cons, List.not_mem_nil, or_false]
    rintro kid (rfl | rfl)
    · exact h₁.scalar
    · exact h₂.scalar
  have hparties : Scalar (parties hybridSuite sender recipientId) :=
    scalar_parties.mpr ⟨scalar_of_isAscii (by decide), hsender, hrecipientId⟩
  have hjoined : Scalar (sortStrs [k₁, k₂]).flatten := by
    intro c hc
    obtain ⟨kid, hkid, hmem⟩ := List.mem_flatten.mp hc
    exact hnames kid ((sortStrs_perm _).mem_iff.mp hkid) c hmem
  have haad : pqdm2Aad (P k₁ k₂ sender recipientId) (.str hybridSuite) sender recipientId (.arr ([k₁, k₂].map .str))
      = .ok (bodyAad k₁ k₂ sender recipientId) :=
    pqdm2Aad_eq_ok.mpr ⟨hybridSuite, _, rfl, sortedJoin_strs _, hjoined, hparties, rfl⟩
  have hheader := strEncode_of_scalar (Json.scalar_dumps (plain_pqdm2Header hparties hnames))
  exact ⟨_, sealMulti_eq_ok.mpr ⟨_, _, _, _, _, List.cons_ne_nil _ _, rfl, haad, rfl, hregion, hheader, rfl⟩⟩

/-- Neither key recovers the secret of the other's encapsulation. -/
theorem exactFor {kcoins : KeypairCoins} (h : kcoins = aliceCoins ∨ kcoins = bobCoins) :
    ExactFor (P k₁ k₂ sender recipientId) coins (recipients k₁ k₂)
      (hex (StandIn.keypair StandIn.sums kcoins).privateKey) := by
  intro priv hpriv pub ct ss hencap hdecap
  rw [fromHex_hex] at hpriv
  obtain rfl := BytesN.ext (Option.some.inj hpriv)
  obtain ⟨keys, hkeys, rfl, rfl, rfl⟩ := of_encapsulates k₁ k₂ sender recipientId hencap
  have hown : ∀ kcoins, IsKeypair (P k₁ k₂ sender recipientId) (StandIn.keypair StandIn.sums kcoins).privateKey
      (StandIn.keypair StandIn.sums kcoins).publicKey := StandIn.isKeypair _ StandIn.sums
  have hforeign : ∀ {kcoins keys}, StandIn.padTo 16 (StandIn.keypair StandIn.sums kcoins).privateKey.right.val
      ≠ StandIn.padTo 16 keys.publicKey.right.val → StandIn.foreignSecret kcoins encapCoins hkdfInfo ≠ secret keys →
      hybridDecap (P k₁ k₂ sender recipientId) (.bytes (StandIn.encapCt StandIn.sums encapCoins keys.publicKey))
        (.bytes (StandIn.keypair StandIn.sums kcoins).privateKey) hkdfInfo ≠ .ok (secret keys) := by
    intro kcoins keys hfront hsecret hsame
    rw [P, StandIn.hybridDecap_foreign _ _ _ _ _ hfront] at hsame
    exact hsecret (Except.ok.inj hsame)
  rcases h with rfl | rfl <;> rcases hkeys with rfl | rfl
  · exact hown aliceCoins
  · exact absurd hdecap (hforeign (by decide) (by decide))
  · exact absurd hdecap (hforeign (by decide) (by decide))
  · exact hown bobCoins

/-- The stand-in key derivation loses nothing of a 32-byte secret. -/
theorem injOn_hkdf (privateHex : Str) : Set.InjOn (P k₁ k₂ sender recipientId).hkdf
    (WrapInputs (P k₁ k₂ sender recipientId) coins (recipients k₁ k₂) privateHex) := by
  have hform : ∀ i ∈ WrapInputs (P k₁ k₂ sender recipientId) coins (recipients k₁ k₂) privateHex,
      ∃ ss : BytesN 32, i = pqdm2WrapKeyInput ss := by
    rintro i ⟨pub, ct, ss, -, rfl | ⟨priv, ss', -, -, rfl⟩⟩
    · exact ⟨ss, rfl⟩
    · exact ⟨ss', rfl⟩
  intro i hi i' hi' heq
  obtain ⟨ss, rfl⟩ := hform i hi
  obtain ⟨ss', rfl⟩ := hform i' hi'
  have hfold : StandIn.fold ss.val = StandIn.fold ss'.val := heq
  rw [StandIn.fold_self, StandIn.fold_self] at hfold
  rw [hfold]

theorem find?_recipients (k₁ k₂ : Str) :
    (recipients k₁ k₂).find? (fun r => keyIdOf r = some k₁) = some (recipient k₁ alice) :=
  List.find?_cons_of_pos (by simp [keyIdOf_recipient])

theorem admits_alice : Admits (P k₁ k₂ sender recipientId) (recipients k₁ k₂) k₁ (hex alice.privateKey) :=
  ⟨recipient k₁ alice, alice.publicKey, alice.privateKey, find?_recipients k₁ k₂, hasPublicKey_recipient _ _,
    fromHex_hex _, StandIn.isKeypair _ _ aliceCoins⟩

/-- Under one key id for both, bob's key is never tried on bob's slot. -/
theorem not_admits_bob (k : Str) : ¬Admits (P k k sender recipientId) (recipients k k) k (hex bob.privateKey) := by
  rintro ⟨r, pub, priv, hfind, hpub, hpriv, hkey⟩
  cases (find?_recipients k k).symm.trans hfind
  obtain rfl := hpub.unique (hasPublicKey_recipient k alice)
  rw [fromHex_hex] at hpriv
  obtain rfl := BytesN.ext (Option.some.inj hpriv)
  have hsame := publicKey_unique (StandIn.kemCorrect _) hkey (StandIn.isKeypair _ _ bobCoins)
  exact absurd hsame (by decide)

abbrev P₁ : Primitives := P (str "phone") (str "phone") (str "carol") (str "team")

abbrev shared : List Recipient := recipients (str "phone") (str "phone")

theorem exists_shared : ∃ token, sealMulti P₁ coins (ascii "hi") shared (str "carol") (str "team") = .ok token := by
  have hphone : IsName (str "phone") := by decide
  have hcarol : Scalar (str "carol") := scalar_of_isAscii (by decide)
  have hteam : Scalar (str "team") := scalar_of_isAscii (by decide)
  exact exists_token hphone hphone hcarol hteam (ascii "hi")

/-- One body for two devices under one key id: the first device opens it. -/
theorem openMulti_sealMulti_run : ∃ token,
    sealMulti P₁ coins (ascii "hi") shared (str "carol") (str "team") = .ok token ∧
      openMulti P₁ token (str "phone") (hex alice.privateKey) (str "carol") (str "team") = .ok (some (ascii "hi")) ∧
      openMulti P₁ token (str "phone") (hex bob.privateKey) (str "carol") (str "team") = .ok none := by
  obtain ⟨token, htoken⟩ := exists_shared
  refine ⟨token, htoken, ?_, ?_⟩
  · exact (openMulti_sealMulti (StandIn.kemCorrect _) (StandIn.aeadCorrect _ _) htoken (aeadSound _ _ _ _)
      (exactFor (.inl rfl)) (injOn_hkdf _)).1 admits_alice
  · exact (openMulti_sealMulti (StandIn.kemCorrect _) (StandIn.aeadCorrect _ _) htoken (aeadSound _ _ _ _)
      (exactFor (.inr rfl)) (injOn_hkdf _)).2 (not_admits_bob _)

theorem openMulti_listed_run : ∃ token,
    sealMulti P₁ coins (ascii "hi") shared (str "carol") (str "team") = .ok token ∧
      openMulti P₁ token (str "phone") (hex alice.privateKey) (str "carol") (str "team") = .ok (some (ascii "hi")) := by
  obtain ⟨token, htoken⟩ := exists_shared
  refine ⟨token, htoken, (openMulti_listed_iff (StandIn.kemCorrect _) (StandIn.aeadCorrect _ _) htoken
    (aeadSound _ _ _ _) List.mem_cons_self rfl (hasPublicKey_recipient _ alice) (StandIn.isKeypair _ _ aliceCoins)
    (fromHex_hex _) (exactFor (.inl rfl)) (injOn_hkdf _)).mpr ?_⟩
  intro first hfirst
  cases (find?_recipients _ _).symm.trans hfirst
  exact ⟨alice.publicKey, hasPublicKey_recipient _ _, hasPublicKey_recipient _ _⟩

/-- The second device under the key id is listed, with its own key, and is locked out. -/
theorem openMulti_second_eq_none : ∃ token,
    sealMulti P₁ coins (ascii "hi") shared (str "carol") (str "team") = .ok token ∧
      recipient (str "phone") bob ∈ shared ∧ keyIdOf (recipient (str "phone") bob) = some (str "phone") ∧
      HasPublicKey (recipient (str "phone") bob) bob.publicKey ∧ IsKeypair P₁ bob.privateKey bob.publicKey ∧
      openMulti P₁ token (str "phone") (hex bob.privateKey) (str "carol") (str "team") = .ok none := by
  obtain ⟨token, htoken⟩ := exists_shared
  refine ⟨token, htoken, by simp [recipients], rfl, hasPublicKey_recipient _ _, StandIn.isKeypair _ _ bobCoins, ?_⟩
  obtain ⟨e, rfl, h⟩ := exists_envelope (StandIn.aeadCorrect _ _) htoken
  have hopen : ∀ body', openMulti P₁ e.token (str "phone") (hex bob.privateKey) (str "carol") (str "team")
      = .ok (some body') ↔ body' = ascii "hi" ∧ Admits P₁ shared (str "phone") (hex bob.privateKey) ∧ _ := fun _ =>
    h.openMulti_header (StandIn.kemCorrect _) (StandIn.aeadCorrect _ _) (aeadSound _ _ _ _) (exactFor (.inr rfl))
      (injOn_hkdf _)
  rw [openMulti_eq_none_iff hopen]
  intro hcond
  exact not_admits_bob _ hcond.1

end FanoutExample

end Pqdm
end SkPqc
