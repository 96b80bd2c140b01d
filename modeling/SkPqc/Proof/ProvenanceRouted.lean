import SkPqc.Proof.Provenance

/-!
# What the openers of envelopes accept

The same for the two formats that carry more than one part: the routing envelope, whose header stands in front
of the sealed part, and the fanout token, whose body is opened with a key that comes out of a slot.
-/

namespace SkPqc

open Wire Pqkem Schemes

/-! ### Routing envelopes -/

namespace Pqroute

section Routed
variable {P : Primitives} {calls : List SealCall} {priv : BytesN privateKeyLen}

/-- What `open_routed` decrypts. -/
def openTries (P : Primitives) (blob : Bytes) (priv : BytesN privateKeyLen) :
    Set (Attempt KeySource Bytes Bytes Bytes) :=
  {a | ∃ (hdrLen routeBytes : Bytes) (ct : BytesN ciphertextLen) (nonce : BytesN wrapNonceLen) (body : Bytes)
      (ss : BytesN 32), packU32 routeBytes.length = some hdrLen ∧
    blob = hdrLen ++ routeBytes ++ (ct ++ nonce ++ body) ∧
    hybridDecap P (.bytes ct) (.bytes priv) hkdfInfo = .ok ss ∧
    a = wrapAttempt (.pqrouteWrap ss routeBytes) nonce (aad routeBytes) body}

/-- Two blobs with one route header, whose sealed inners repeat each other. -/
def RepeatsRouted (P : Primitives) (coins : EncapCoins) (pub : BytesN publicKeyLen) (priv : BytesN privateKeyLen)
    (blob made : Bytes) : Prop :=
  ∃ routeBytes sealedInner madeInner, splitOuter (.bytes blob) = .ok (routeBytes, sealedInner) ∧
    splitOuter (.bytes made) = .ok (routeBytes, madeInner) ∧ Repeats P coins pub priv sealedInner madeInner

/-- A blob that repeats a sealed one opens to what was sealed. -/
theorem openRouted_of_repeats (haead : P.AeadCorrect) {coins : SealCoins} {innerMetadata routeHdr : Json}
    (hplainMeta : innerMetadata.Plain) (hplainRoute : routeHdr.Plain) {content blob made : Bytes}
    {pub : BytesN publicKeyLen} (hseal : sealRouted P coins innerMetadata content (.bytes pub) routeHdr = .ok made)
    (hrouted : RepeatsRouted P coins.encap pub priv blob made) :
    openRouted P (.bytes blob) (.bytes priv) = .ok (routeHdr.sortKeys, innerMetadata.sortKeys, content) := by
  obtain ⟨routeBytes, sealedInner, madeInner, hblob, hmade, hrepeats⟩ := hrouted
  obtain ⟨pub', _, metaBytes, metaLen, hdrLen, ct, ss, body, hpub, hroute, hmeta, hmetaLen, hencap, hencrypt, hlen,
    rfl⟩ := sealRouted_eq_ok.mp hseal
  obtain rfl : pub = pub' := BytesN.ext (Option.some.inj hpub)
  rw [splitOuter_append hlen] at hmade
  cases hmade
  rw [List.append_assoc, repeats_iff hencap] at hrepeats
  obtain ⟨ct', rfl, hdecap⟩ := hrepeats
  obtain ⟨hdrLen', hlen', rfl⟩ := splitOuter_eq_ok.mp hblob
  rw [canonical_eq hplainMeta] at hmeta
  rw [canonical_eq hplainRoute] at hroute
  cases hmeta
  cases hroute
  have htag : aesgcmTagLen ≤ body.length := haead.tag_le hencrypt
  rw [← List.append_assoc ct'.val]
  refine openRouted_eq_ok.mpr ⟨?_, _, ?_, layer_inner P hplainMeta hmetaLen content⟩
  · exact ⟨_, hdrLen', _, Json.scalar_dumps hplainRoute, hlen', Json.loads_dumps _ hplainRoute, rfl⟩
  · exact ⟨hdrLen', _, ct', coins.nonce, body, priv, ss, hlen', rfl, htag, rfl, hdecap,
      haead.decrypt_encrypt _ _ _ _ _ hencrypt⟩

/-- Whatever `open_routed` returns was sealed in a call of `seal_routed`, under the header that comes with it; the
blob repeats what that call returned, up to the KEM ciphertext. -/
theorem openRouted_eq_ok_iff_sealed (haead : P.AeadCorrect) {blob : Bytes}
    (hcalls : ∀ coins innerMetadata content pub routeHdr,
      .routed coins innerMetadata content pub routeHdr ∈ calls → innerMetadata.Plain ∧ routeHdr.Plain)
    (hguards : P.cipher.Guards (sealings P calls) (openTries P blob priv)) {header metadata : Json} {content : Bytes} :
    openRouted P (.bytes blob) (.bytes priv) = .ok (header, metadata, content) ↔
      ∃ coins innerMetadata, ∃ pub : BytesN publicKeyLen, ∃ routeHdr made,
        .routed coins innerMetadata content pub routeHdr ∈ calls ∧
        sealRouted P coins innerMetadata content (.bytes pub) routeHdr = .ok made ∧
        RepeatsRouted P coins.encap pub priv blob made ∧
        header = routeHdr.sortKeys ∧ metadata = innerMetadata.sortKeys := by
  constructor
  · intro hopen
    have hread := readRouteHeader_of_openRouted hopen
    obtain ⟨-, inner, hopens, hlayer⟩ := openRouted_eq_ok.mp hopen
    obtain ⟨hdrLen, routeBytes, ct, nonce, body, _, ss, hlen, rfl, -, hpriv, hdecap, hinner⟩ := hopens
    cases hpriv
    have htried : wrapAttempt (.pqrouteWrap ss routeBytes) nonce (aad routeBytes) body ∈ openTries P _ priv :=
      ⟨hdrLen, routeBytes, ct, nonce, body, ss, hlen, rfl, hdecap, rfl⟩
    obtain ⟨hencrypt, call, hcall, hcallLayer, d, hinput, hwraps⟩ :=
      exists_call_of_decrypt haead hguards Layer.noConfusion htried hinner
    cases call with
    | oneShot => cases hcallLayer
    | fanout => cases hcallLayer
    | wrap M => cases M <;> cases hcallLayer
    | routed coins innerMetadata content' pub routeHdr =>
      obtain ⟨routeBytes', metaBytes, metaLen, ct', ss', hroute, hmeta, hmetaLen, hencap, haad, rfl, hnonce, rfl⟩ :=
        hwraps
      obtain rfl : ss' = ss := BytesN.ext (congrArg HkdfInput.ikm hinput)
      obtain rfl : routeBytes = routeBytes' := aad_inj haad
      obtain ⟨hplainMeta, hplainRoute⟩ := hcalls _ _ _ _ _ hcall
      have hseal : sealRouted P coins innerMetadata content' (.bytes pub) routeHdr = .ok _ :=
        sealRouted_eq_ok.mpr ⟨pub, routeBytes, metaBytes, metaLen, hdrLen, ct', ss', body, rfl, hroute, hmeta, hmetaLen,
          hencap, hnonce ▸ hencrypt, hlen, rfl⟩
      rw [canonical_eq hplainMeta] at hmeta
      cases hmeta
      obtain ⟨rfl, rfl⟩ := layer_unique hlayer (layer_inner P hplainMeta hmetaLen content')
      refine ⟨coins, innerMetadata, pub, routeHdr, _, hcall, hseal, ⟨routeBytes, _, _, splitOuter_append hlen,
        splitOuter_append hlen, ?_⟩, ?_, rfl⟩
      · rw [List.append_assoc, List.append_assoc, repeats_iff hencap]
        exact ⟨ct, by rw [hnonce], hdecap⟩
      · rw [canonical_eq hplainRoute] at hroute
        cases hroute
        rw [readRouteHeader, readRouteHeaderWith, splitOuter_append hlen, ok_bind] at hread
        exact Except.ok.inj (hread.symm.trans (loadsHeader_dumps P _ _ hplainRoute))
  · rintro ⟨coins, innerMetadata, pub, routeHdr, made, hcall, hseal, hrouted, rfl, rfl⟩
    obtain ⟨hplainMeta, hplainRoute⟩ := hcalls _ _ _ _ _ hcall
    exact openRouted_of_repeats haead hplainMeta hplainRoute hseal hrouted

/-- The destination's own open of a sealed blob decrypts what was sealed. -/
theorem openTries_of_sealRouted (hkem : P.KemCorrect) {pub : BytesN publicKeyLen} (hkey : IsKeypair P priv pub)
    {coins : SealCoins} {innerMetadata routeHdr : Json} {content blob : Bytes}
    (hcall : .routed coins innerMetadata content pub routeHdr ∈ calls)
    (hseal : sealRouted P coins innerMetadata content (.bytes pub) routeHdr = .ok blob)
    {a : Attempt KeySource Bytes Bytes Bytes} (ha : a ∈ openTries P blob priv) :
    ∃ data, ⟨a, data⟩ ∈ sealings P calls := by
  obtain ⟨pub', routeBytes, metaBytes, metaLen, hdrLen, ct, ss, body, hpub, hroute, hmeta, hmetaLen, hencap, hencrypt,
    hlen, rfl⟩ := sealRouted_eq_ok.mp hseal
  obtain rfl : pub = pub' := BytesN.ext (Option.some.inj hpub)
  obtain ⟨hdrLen', routeBytes', ct', nonce, body', ss', hlen', hblob, hdecap, rfl⟩ := ha
  have hsplit := (splitOuter_append hlen).symm.trans (hblob ▸ splitOuter_append hlen')
  obtain ⟨rfl, hinner⟩ := Prod.mk.inj (Except.ok.inj hsplit)
  rw [List.append_assoc, List.append_assoc] at hinner
  obtain ⟨hct, hrest⟩ := List.append_inj hinner (by simp)
  obtain ⟨hnonce, rfl⟩ := List.append_inj hrest (by simp)
  rw [← hct, hybridDecap_hybridEncap hkem hkey hencap] at hdecap
  cases hdecap
  rw [← hnonce]
  exact ⟨_, (mem_sealings_wrap Layer.noConfusion).mpr ⟨hencrypt, _, hcall, rfl, _, rfl, routeBytes, metaBytes, metaLen,
    ct, ss, hroute, hmeta, hmetaLen, hencap, rfl, rfl, rfl, rfl⟩⟩

end Routed

namespace Example

open StandIn (aliceCoins encapCoins)

def call : SealCall := .routed coins (.obj []) (ascii "hi") keys.publicKey (.obj routeHdr)

/-- The routed seal, and a call of another layer to the same key. -/
def calls : List SealCall := [StandIn.memberWrap keys.publicKey, call]

theorem from_call : call.From P [.derived (Derivation.pqrouteWrap
    (StandIn.sumSecret encapCoins keys.publicKey hkdfInfo) (utf8 (Json.dumps (.obj routeHdr)))).input] where
  wraps := by
    rintro _ _ _ _ ⟨routeBytes, metaBytes, metaLen, ct, ss, hroute, -, -, hencap, -, rfl, -⟩
    rw [canonical_eq plain_routeHdr] at hroute
    cases hroute
    cases (StandIn.hybridEncap_sums _ _ _ _).symm.trans hencap
    exact List.mem_singleton_self _
  draws _ _ _ _ hdraws := hdraws.elim

theorem injOn_key : Set.InjOn P.cipher.key (Cipher.sourcesOf (sealings P calls)) := by
  have hmember := StandIn.from_memberWrap [] keys.publicKey
  apply injOn_of_from (List.forall_mem_cons.mpr ⟨hmember.mono (List.subset_append_left _ _),
    List.forall_mem_singleton.mpr (from_call.mono (List.subset_append_right _ _))⟩)
  decide

/-- With one routed seal and an epoch wrap as the calls, the blob opens to its header, its metadata and its content,
and to nothing else. -/
theorem openRouted_eq_ok_iff_sealed_run : ∃ blob,
    sealRouted P coins (.obj []) (ascii "hi") (.bytes keys.publicKey) (.obj routeHdr) = .ok blob ∧
      ∀ header metadata content,
        openRouted P (.bytes blob) (.bytes keys.privateKey) = .ok (header, metadata, content) ↔
          header = Json.sortKeys (.obj routeHdr) ∧ metadata = Json.sortKeys (.obj []) ∧ content = ascii "hi" := by
  have hkem : P.KemCorrect := StandIn.kemCorrect _
  have haead : P.AeadCorrect := StandIn.aeadCorrect _ _
  have hkey : IsKeypair P keys.privateKey keys.publicKey := StandIn.isKeypair _ _ aliceCoins
  have hcall : call ∈ calls := List.mem_cons_of_mem _ List.mem_cons_self
  have honly : ∀ {coins innerMetadata content pub routeHdr}, .routed coins innerMetadata content pub routeHdr ∈ calls →
      SealCall.routed coins innerMetadata content pub routeHdr = call := by
    intro _ _ _ _ _ hmem
    rcases List.mem_pair.mp hmem with hmember | hsame
    · cases hmember
    · exact hsame
  obtain ⟨blob, hseal⟩ := exists_sealed
  have htried : ∀ a ∈ openTries P blob keys.privateKey, ∃ data, ⟨a, data⟩ ∈ sealings P calls := by
    intro a ha
    exact openTries_of_sealRouted hkem hkey hcall hseal ha
  have hplain : ∀ coins innerMetadata content pub routeHdr, .routed coins innerMetadata content pub routeHdr ∈ calls →
      innerMetadata.Plain ∧ routeHdr.Plain := by
    intro _ _ _ _ _ hmem
    cases honly hmem
    exact ⟨plain_empty, plain_routeHdr⟩
  refine ⟨blob, hseal, fun header metadata content => ?_⟩
  rw [openRouted_eq_ok_iff_sealed haead hplain (.of_made htried injOn_key)]
  constructor
  · rintro ⟨_, _, _, _, _, hmem, -, -, rfl, rfl⟩
    cases honly hmem
    exact ⟨rfl, rfl, rfl⟩
  · rintro ⟨rfl, rfl, rfl⟩
    refine ⟨coins, .obj [], keys.publicKey, .obj routeHdr, blob, hcall, hseal, ?_, rfl, rfl⟩
    obtain ⟨pub, routeBytes, _, _, hdrLen, ct, ss, body, hpub, -, -, -, hencap, -, hlen, rfl⟩ :=
      sealRouted_eq_ok.mp hseal
    obtain rfl : keys.publicKey = pub := BytesN.ext (Option.some.inj hpub)
    refine ⟨routeBytes, _, _, splitOuter_append hlen, splitOuter_append hlen, ?_⟩
    rw [List.append_assoc]
    exact repeats_self hkem hkey hencap _

end Example

end Pqroute

/-! ### Fanout tokens -/

namespace Pqdm

section Fanout
variable {P : Primitives} {calls : List SealCall} {priv : BytesN privateKeyLen}

/-- The slot that a device finds in a token, the secret that its private key gets out of it, and the body region. -/
def Finds (P : Primitives) (token myKeyId : Str) (priv : BytesN privateKeyLen) (header : Bytes) (slot : Slot)
    (ss : BytesN 32) (blob : Bytes) : Prop :=
  ∃ slots, Carries token header slots blob ∧
    (pqdm2IterSlots slots).1.find? (fun slot => slot.keyId = myKeyId) = some slot ∧
    hybridDecap P (.bytes slot.encap) (.bytes priv) hkdfInfo = .ok ss

/-- What `open_multi` decrypts: the slot, and the body with the key from the slot. -/
def multiTries (P : Primitives) (token myKeyId : Str) (priv : BytesN privateKeyLen) (sender recipientId : Str) :
    Set (Attempt KeySource Bytes Bytes Bytes) :=
  {a | ∃ header slot ss blob, Finds P token myKeyId priv header slot ss blob ∧
    (a = wrapAttempt (.pqdm2SlotWrap ss) (blob.take wrapNonceLen) [] slot.wrappedK ∨ ∃ K aad,
      P.decrypt (pqdm2WrapKey P ss) (blob.take wrapNonceLen) slot.wrappedK [] = .ok K ∧
      headerAad P header sender recipientId = .ok aad ∧
      a = ⟨.drawn K, blob.take wrapNonceLen, aad, blob.drop wrapNonceLen⟩)}

/-- The call of `seal_multi` whose body a token repeats: the slot found carries the call's message key, wrapped under
a secret of the call, the body region carries the call's ciphertext, and the header and the parties give its AAD. -/
def RepeatsMulti (P : Primitives) (coins : SealMultiCoins) (body : Bytes) (recipients : List Recipient)
    (sealedSender sealedRecipient token myKeyId : Str) (priv : BytesN privateKeyLen) (sender recipientId : Str) :
    Prop :=
  ∃ header slot ss blob pub ct kids aad, Finds P token myKeyId priv header slot ss blob ∧
    blob.take wrapNonceLen = coins.nonce ∧ Encapsulates P coins recipients pub ct ss ∧
    P.encrypt (pqdm2WrapKey P ss) coins.nonce coins.messageKey [] = .ok slot.wrappedK ∧
    recipients.mapM (getItem (str "key_id")) = .ok kids ∧
    pqdm2Aad P (.str hybridSuite) sealedSender sealedRecipient (.arr kids) = .ok aad ∧
    headerAad P header sender recipientId = .ok aad ∧
    P.encrypt coins.messageKey coins.nonce body aad = .ok (blob.drop wrapNonceLen)

/-- Whatever `open_multi` returns is the body of one call of `seal_multi`, from which the slot comes too, as long
as no two calls draw one message key. -/
theorem openMulti_eq_some_iff_sealed (haead : P.AeadCorrect) {token myKeyId myPrivateHex sender recipientId : Str}
    (hpriv : fromHex myPrivateHex = some priv.val)
    (hdrawn : ∀ coins body recipients s r coins' body' recipients' s' r',
      .fanout coins body recipients s r ∈ calls → .fanout coins' body' recipients' s' r' ∈ calls →
      coins.messageKey = coins'.messageKey →
      SealCall.fanout coins body recipients s r = .fanout coins' body' recipients' s' r')
    (hguards : P.cipher.Guards (sealings P calls) (multiTries P token myKeyId priv sender recipientId)) {data : Bytes} :
    openMulti P token myKeyId myPrivateHex sender recipientId = .ok (some data) ↔
      ∃ coins recipients sealedSender sealedRecipient,
        .fanout coins data recipients sealedSender sealedRecipient ∈ calls ∧
        RepeatsMulti P coins data recipients sealedSender sealedRecipient token myKeyId priv sender recipientId := by
  rw [openMulti_eq_some]
  constructor
  · rintro ⟨header, slots, blob, aad, priv', slot, ss, K, hcarries, haad, hpriv', hfind, hdecap, hK, hbody⟩
    obtain rfl : priv.val = priv' := Option.some.inj (hpriv.symm.trans hpriv')
    have hfinds : Finds P token myKeyId priv header slot ss blob := ⟨slots, hcarries, hfind, hdecap⟩
    -- the slot comes from a call, and with it the message key
    obtain ⟨hwrapped, call, hcall, hlayer, d, hinput, hwraps⟩ := exists_call_of_decrypt haead hguards
      (d := .pqdm2SlotWrap ss) Layer.noConfusion ⟨header, slot, ss, blob, hfinds, .inl rfl⟩ hK
    cases call with
    | oneShot => cases hlayer
    | routed => cases hlayer
    | wrap M => cases M <;> cases hlayer
    | fanout coins body recipients s r =>
      obtain ⟨pub, ct, ss', hencap, rfl, hnonce, -, rfl⟩ := hwraps
      obtain rfl : ss' = ss := BytesN.ext (congrArg HkdfInput.ikm hinput)
      -- the body comes from a call with that message key, which is the same call
      have hresult := Primitives.result_eq_some
        (a := ⟨.drawn coins.messageKey, blob.take wrapNonceLen, aad, blob.drop wrapNonceLen⟩).mpr hbody
      have hmade := (hguards.result_eq_some_iff (haead.undoes fun _ h => h.1)
        ⟨header, slot, ss', blob, hfinds, .inr ⟨_, aad, hK, haad, rfl⟩⟩).mp hresult
      obtain ⟨hencrypt, call', hcall', hdraws⟩ := mem_sealings_drawn.mp hmade
      cases call' with
      | oneShot => cases hdraws
      | routed => cases hdraws
      | wrap => cases hdraws
      | fanout coins' body' recipients' s' r' =>
        obtain ⟨kids, hkids, haad', hkey, -, rfl⟩ := hdraws
        cases hdrawn _ _ _ _ _ _ _ _ _ _ hcall hcall' (BytesN.ext hkey)
        rw [hnonce] at hwrapped hencrypt
        exact ⟨coins, recipients, s, r, hcall, header, slot, ss', blob, pub, ct, kids, aad, hfinds, hnonce, hencap,
          hwrapped, hkids, haad', haad, hencrypt⟩
  · rintro ⟨coins, recipients, s, r, -, header, slot, ss, blob, pub, ct, kids, aad, ⟨slots, hcarries, hfind, hdecap⟩,
      hnonce, -, hwrapped, -, -, haad, hencrypt⟩
    refine ⟨header, slots, blob, aad, priv.val, slot, ss, coins.messageKey, hcarries, haad, hpriv, hfind, hdecap, ?_,
      ?_⟩
    · rw [hnonce]
      exact haead.decrypt_encrypt _ _ _ _ _ hwrapped
    · rw [hnonce]
      exact haead.decrypt_encrypt _ _ _ _ _ hencrypt

/-- An open by a device that the recipients admit decrypts what was sealed. -/
theorem multiTries_of_seals (hkem : P.KemCorrect) (haead : P.AeadCorrect) {coins : SealMultiCoins} {body : Bytes}
    {recipients : List Recipient} {sender recipientId : Str} {e : Envelope}
    (hcall : .fanout coins body recipients sender recipientId ∈ calls)
    (h : Seals P coins body recipients sender recipientId e) {myKeyId : Str}
    (hadmits : Admits P recipients myKeyId (hex priv)) {a : Attempt KeySource Bytes Bytes Bytes}
    (ha : a ∈ multiTries P e.token myKeyId priv sender recipientId) : ∃ data, ⟨a, data⟩ ∈ sealings P calls := by
  obtain ⟨r, pub, priv', hfind, hpub, hpriv', hkey⟩ := hadmits
  rw [fromHex_hex] at hpriv'
  obtain rfl := BytesN.ext (Option.some.inj hpriv')
  have hfirst := h.find?_slots myKeyId
  rw [hfind] at hfirst
  obtain ⟨packed, hpacked, -, pub', ss, hpub', hencap, hwrapped⟩ := rel_some_left hfirst
  obtain rfl := hpub.unique hpub'
  obtain ⟨header, slot, ss', blob, ⟨slots, hcarries, hslot, hdecap⟩, hattempt⟩ := ha
  obtain ⟨rfl, rfl, rfl⟩ := (carries_pqdm2Token e.header _ (e.nonce ++ e.ct)).unique hcarries
  rw [PackedSlot.pqdm2IterSlots_flatMap, find?_map_view, hpacked] at hslot
  cases hslot
  obtain ⟨i, r', hr', hpub'', hencap'⟩ := hencap
  cases (hybridDecap_hybridEncap hkem hkey hencap').symm.trans hdecap
  rw [List.take_left' e.nonce.length_val, List.drop_left' e.nonce.length_val, h.nonce] at hattempt
  rcases hattempt with rfl | ⟨K, aad, hK, haad, rfl⟩
  · exact ⟨_, (mem_sealings_wrap Layer.noConfusion).mpr ⟨hwrapped, _, hcall, rfl, _, rfl, pub, _, ss,
      ⟨i, r', hr', hpub'', hencap'⟩, rfl, rfl, rfl, rfl⟩⟩
  · cases (haead.decrypt_encrypt _ _ _ _ _ hwrapped).symm.trans hK
    obtain ⟨aad', haad', hct⟩ := h.body
    cases (h.headerAad_eq.trans haad').symm.trans haad
    exact ⟨body, mem_sealings_drawn.mpr ⟨hct, _, hcall, _, kids_of_forall₂ h.slots, haad', rfl, rfl, rfl⟩⟩

end Fanout

namespace FanoutExample

open StandIn (aliceCoins)

def call : SealCall := .fanout coins (ascii "hi") shared (str "carol") (str "team")

/-- The fanout seal, and a call of another layer to one of its keys. -/
def calls : List SealCall := [StandIn.memberWrap alice.publicKey, call]

/-- Two wrap keys and the message key. -/
theorem from_call : call.From P₁ [.derived (Derivation.pqdm2SlotWrap (secret alice)).input,
    .derived (Derivation.pqdm2SlotWrap (secret bob)).input, .drawn coins.messageKey] where
  wraps := by
    rintro _ _ _ _ ⟨pub, ct, ss, hencap, rfl, -⟩
    obtain ⟨keys, rfl | rfl, -, -, rfl⟩ := of_encapsulates _ _ _ _ hencap
    · exact List.mem_cons_self
    · exact List.mem_cons_of_mem _ List.mem_cons_self
  draws := by
    rintro _ _ _ _ ⟨kids, -, -, rfl, -⟩
    exact List.mem_cons_of_mem _ (List.mem_cons_of_mem _ (List.mem_singleton_self _))

theorem injOn_key : Set.InjOn P₁.cipher.key (Cipher.sourcesOf (sealings P₁ calls)) := by
  have hmember : (StandIn.memberWrap alice.publicKey).From P₁ _ := StandIn.from_memberWrap _ alice.publicKey
  apply injOn_of_from (List.forall_mem_cons.mpr ⟨hmember.mono (List.subset_append_left _ _),
    List.forall_mem_singleton.mpr (from_call.mono (List.subset_append_right _ _))⟩)
  decide

theorem eq_call {coins : SealMultiCoins} {body : Bytes} {recipients : List Recipient} {sender recipientId : Str}
    (h : .fanout coins body recipients sender recipientId ∈ calls) :
    SealCall.fanout coins body recipients sender recipientId = call := by
  rcases List.mem_pair.mp h with hmember | hsame
  · cases hmember
  · exact hsame

/-- With one fanout seal and an epoch wrap as the calls, the first device under the key id opens its token to the body,
and to nothing else. -/
theorem openMulti_eq_some_iff_sealed_run : ∃ token,
    sealMulti P₁ coins (ascii "hi") shared (str "carol") (str "team") = .ok token ∧
      openMulti P₁ token (str "phone") (hex alice.privateKey) (str "carol") (str "team") = .ok (some (ascii "hi")) ∧
      ∃ coins recipients sender recipientId, SealCall.fanout coins (ascii "hi") recipients sender recipientId = call ∧
        RepeatsMulti P₁ coins (ascii "hi") recipients sender recipientId token (str "phone") alice.privateKey
          (str "carol") (str "team") := by
  have hkem : P₁.KemCorrect := StandIn.kemCorrect _
  have haead : P₁.AeadCorrect := StandIn.aeadCorrect _ _
  have hcall : call ∈ calls := List.mem_cons_of_mem _ List.mem_cons_self
  obtain ⟨token, htoken⟩ := exists_shared
  obtain ⟨e, rfl, h⟩ := exists_envelope haead htoken
  have hopen := h.openMulti_admits hkem haead admits_alice
  have htried : ∀ a ∈ multiTries P₁ e.token (str "phone") alice.privateKey (str "carol") (str "team"),
      ∃ data, ⟨a, data⟩ ∈ sealings P₁ calls := by
    intro a ha
    exact multiTries_of_seals hkem haead hcall h admits_alice ha
  refine ⟨e.token, htoken, hopen, ?_⟩
  rw [openMulti_eq_some_iff_sealed haead (fromHex_hex _) ?_ (.of_made htried injOn_key)] at hopen
  · obtain ⟨coins', recipients', s, r, hmem, hrepeats⟩ := hopen
    exact ⟨coins', recipients', s, r, eq_call hmem, hrepeats⟩
  · intro _ _ _ _ _ _ _ _ _ _ hmem hmem' _
    exact (eq_call hmem).trans (eq_call hmem').symm

end FanoutExample

end Pqdm
end SkPqc
