import SkPqc.Proof.RouteTamper

/-!
# Which headers the routing decoders accept

A layer of the envelope is a length, a text of that length that is JSON, and a rest (`Layer`). The relay
returns the value of the outer layer (`readRouteHeader_eq_ok`), the destination the values of both
(`openRouted_eq_ok`), and neither looks at the kind of value. So the relay gives objects only where the text in
front is no JSON of another kind, and the destination where nobody sealed JSON of another kind for it
(`decodes_objects_iff`).
-/

namespace SkPqc
namespace Pqroute

open Wire Pqkem Runs

/-- The inner that the body of the blob opens to under the key. -/
def OpensTo (P : Primitives) (blob : Bytes) (key : PyVal) (inner : Bytes) : Prop :=
  ∃ (hdrLen routeBytes : Bytes) (ct : BytesN ciphertextLen) (nonce : BytesN wrapNonceLen) (body priv : Bytes)
      (ss : BytesN 32),
    packU32 routeBytes.length = some hdrLen ∧ blob = hdrLen ++ routeBytes ++ (ct ++ nonce ++ body) ∧
      aesgcmTagLen ≤ body.length ∧ key.toBytes = .ok priv ∧
      hybridDecap P (.bytes ct) (.bytes priv) hkdfInfo = .ok ss ∧
      P.decrypt (wrapKey P ss (aad routeBytes)) nonce body (aad routeBytes) = .ok inner

def IsObject (v : Json) : Prop := ∃ members, v = .obj members

/-! ### The two decoders -/

theorem readRouteHeader_eq_ok {P : Primitives} {blob : Bytes} {v : Json} :
    readRouteHeader P (.bytes blob) = .ok v ↔ ∃ rest, Layer P blob v rest := by
  simp only [readRouteHeader, readRouteHeaderWith, bind_eq_ok, Prod.exists, splitOuter_eq_ok, loadsHeader_eq_ok]
  constructor
  · rintro ⟨_, rest, ⟨hdrLen, hlen, rfl⟩, text, htext, rfl, hloads⟩
    exact ⟨rest, hdrLen, text, htext, hlen, hloads, rfl⟩
  · rintro ⟨rest, hdrLen, text, htext, hlen, hloads, rfl⟩
    exact ⟨_, rest, ⟨hdrLen, hlen, rfl⟩, text, htext, rfl, hloads⟩

/-- The relay returns the value of the outer layer, or raises the format error. -/
theorem ends_readRouteHeader (P : Primitives) (blob : Bytes) :
    Ends (fun v => ∃ rest, Layer P blob v rest) (fun e => e.cls = .pqRouteFormatError)
      (readRouteHeader P (.bytes blob)) := by
  have hends : Ends (fun _ => True) (fun e => e.cls = .pqRouteFormatError) (readRouteHeader P (.bytes blob)) :=
    Ends.bind (ends_splitOuter _) fun _ _ => ends_loadsHeader P _ _ fun _ => rfl
  exact hends.with_ok.mono (fun _ h => readRouteHeader_eq_ok.mp h) fun _ he => he

/-- The destination returns the values of the outer layer and of the layer inside. -/
theorem openRouted_eq_ok {P : Primitives} {blob content : Bytes} {key : PyVal} {routeHdr innerMetadata : Json} :
    openRouted P (.bytes blob) key = .ok (routeHdr, innerMetadata, content) ↔
      (∃ rest, Layer P blob routeHdr rest) ∧ ∃ inner, OpensTo P blob key inner ∧
        Layer P inner innerMetadata content := by
  constructor
  · intro h
    simp only [openRouted, openRoutedWith, bind_eq_ok, guard_eq_ok, Prod.exists, splitOuter_eq_ok,
      tryExcept_raise_eq_ok, loadsHeader_eq_ok, splitInner_eq_ok] at h
    obtain ⟨_, sealedInner, ⟨hdrLen, hlen, rfl⟩, hlong, _, ⟨text, htext, rfl, hloads⟩, ss, ⟨priv, hpriv, hdecap⟩, inner,
      hinner, _, _, hlayer, hret⟩ := h
    cases hret
    have hsize : ciphertextLen + wrapNonceLen + aesgcmTagLen ≤ sealedInner.length := Nat.le_of_not_lt hlong
    have hct : (sealedInner.take ciphertextLen).length = ciphertextLen := List.length_take_of_le (by omega)
    have hnonce : (slice sealedInner ciphertextLen (ciphertextLen + wrapNonceLen)).length = wrapNonceLen := by
      rw [length_slice _ (by omega), Nat.add_sub_cancel_left]
    have hparts : sealedInner = sealedInner.take ciphertextLen ++
        slice sealedInner ciphertextLen (ciphertextLen + wrapNonceLen) ++
        sealedInner.drop (ciphertextLen + wrapNonceLen) := by
      rw [take_append_slice _ (Nat.le_add_right ..), List.take_append_drop]
    refine ⟨⟨_, hdrLen, text, htext, hlen, hloads, rfl⟩, inner, ⟨hdrLen, utf8 text, ⟨_, hct⟩, ⟨_, hnonce⟩, _, priv, ss,
      hlen, ?_, ?_, hpriv, hdecap, hinner⟩, hlayer⟩
    · rw [← hparts]
    · rw [List.length_drop]
      omega
  · rintro ⟨⟨rest, hlayer⟩, inner, hopens, hmeta⟩
    obtain ⟨hdrLen, routeBytes, ct, nonce, body, priv, ss, hlen, rfl, hbody, hpriv, hdecap, hinner⟩ := hopens
    -- the relay cuts the same header out
    have hread := readRouteHeader_eq_ok.mpr ⟨rest, hlayer⟩
    rw [readRouteHeader, readRouteHeaderWith, splitOuter_append hlen, ok_bind] at hread
    rw [openRouted, openRoutedWith_append ct nonce hlen hbody hread hpriv hdecap hinner, splitInner_eq_ok.mpr hmeta]
    rfl

/-! ### What was sealed -/

/-- The bytes are a UTF-8 text that is JSON for the value. -/
def ReadsAs (P : Primitives) (b : Bytes) (v : Json) : Prop :=
  ∃ text, Scalar text ∧ utf8 text = b ∧ Json.loads P.floatText text = some v

/-- A header and an inner as any sender may seal them for the owner of a public key. -/
structure RoutedSealing where
  coins : SealCoins
  pub : BytesN publicKeyLen
  routeBytes : Bytes
  inner : Bytes

namespace RoutedSealing
variable (P : Primitives) (s : RoutedSealing)

/-- The encapsulation of the sealing, its secret, and the AES-GCM ciphertext. -/
def Makes (ct : BytesN ciphertextLen) (ss : BytesN 32) (body : Bytes) : Prop :=
  hybridEncap P s.coins.encap (.bytes s.pub) hkdfInfo = .ok (ct, ss) ∧
    P.encrypt (wrapKey P ss (aad s.routeBytes)) s.coins.nonce s.inner (aad s.routeBytes) = .ok body

/-- The blob is the sealed one. -/
def Seals (blob : Bytes) : Prop :=
  ∃ hdrLen ct ss body, s.Makes P ct ss body ∧ packU32 s.routeBytes.length = some hdrLen ∧
    blob = hdrLen ++ s.routeBytes ++ (ct ++ s.coins.nonce ++ body)

/-- The blob has the header of the sealing, and its nonce and ciphertext behind some encapsulation. -/
def StandsIn (blob : Bytes) : Prop :=
  ∃ hdrLen ct ss body, ∃ ct' : BytesN ciphertextLen, s.Makes P ct ss body ∧
    packU32 s.routeBytes.length = some hdrLen ∧ blob = hdrLen ++ s.routeBytes ++ (ct' ++ s.coins.nonce ++ body)

/-- The header and the metadata of the sealing, where both are JSON, are objects. -/
def SealsObjects : Prop :=
  ∀ routeHdr innerMetadata content, ReadsAs P s.routeBytes routeHdr → Layer P s.inner innerMetadata content →
    IsObject routeHdr ∧ IsObject innerMetadata

end RoutedSealing

/-- What AES-GCM is given in the sealings. -/
def SealingsMake (P : Primitives) (sealings : Set RoutedSealing) (key nonce aadBytes ciphertext : Bytes) : Prop :=
  ∃ s ∈ sealings, ∃ ct ss, s.Makes P ct ss ciphertext ∧ key = wrapKey P ss aadBytes ∧ nonce = s.coins.nonce ∧
    aadBytes = aad s.routeBytes

section Sealed
variable {P : Primitives} {s : RoutedSealing} {blob : Bytes}

theorem readsAs_unique {b : Bytes} {v v' : Json} (h : ReadsAs P b v) (h' : ReadsAs P b v') : v = v' := by
  obtain ⟨text, htext, rfl, hloads⟩ := h
  obtain ⟨text', htext', hutf8, hloads'⟩ := h'
  obtain rfl := utf8_injective htext' htext hutf8
  exact Option.some.inj (hloads.symm.trans hloads')

theorem readsAs_of_layer {hdrLen b rest rest' : Bytes} {v : Json} (hlen : packU32 b.length = some hdrLen)
    (h : Layer P (hdrLen ++ b ++ rest) v rest') : ReadsAs P b v := by
  obtain ⟨hdrLen', text, htext, hlen', hloads, hblob⟩ := h
  have hsplit := (splitOuter_append hlen).symm.trans (hblob ▸ splitOuter_append hlen')
  cases hsplit
  exact ⟨text, htext, rfl, hloads⟩

theorem layer_of_readsAs {b : Bytes} {v : Json} (h : ReadsAs P b v) {hdrLen : Bytes}
    (hlen : packU32 b.length = some hdrLen) (rest : Bytes) : Layer P (hdrLen ++ b ++ rest) v rest := by
  obtain ⟨text, htext, rfl, hloads⟩ := h
  exact ⟨hdrLen, text, htext, hlen, hloads, rfl⟩

/-- The owner of the key opens what was sealed for it, as far as it is JSON. -/
theorem RoutedSealing.Seals.openRouted_iff (h : s.Seals P blob) (hkem : P.KemCorrect) (haead : P.AeadCorrect)
    {priv : BytesN privateKeyLen} (hkey : IsKeypair P priv s.pub) {routeHdr innerMetadata : Json} {content : Bytes} :
    openRouted P (.bytes blob) (.bytes priv) = .ok (routeHdr, innerMetadata, content) ↔
      ReadsAs P s.routeBytes routeHdr ∧ Layer P s.inner innerMetadata content := by
  obtain ⟨hdrLen, ct, ss, body, ⟨hencap, hencrypt⟩, hlen, rfl⟩ := h
  have hdecap := hybridDecap_hybridEncap hkem hkey hencap
  have hinner := haead.decrypt_encrypt _ _ _ _ _ hencrypt
  constructor
  · intro hopen
    obtain ⟨⟨rest, hroute⟩, inner, hopens, hmeta⟩ := openRouted_eq_ok.mp hopen
    obtain ⟨hdrLen', routeBytes, ct', nonce, body', _, ss', hlen', hblob, -, hpriv, hdecap', hinner'⟩ := hopens
    cases hpriv
    have hsplit := (splitOuter_append hlen).symm.trans (hblob ▸ splitOuter_append hlen')
    obtain ⟨rfl, hparts⟩ := Prod.mk.inj (Except.ok.inj hsplit)
    rw [List.append_assoc, List.append_assoc] at hparts
    obtain ⟨hct, hrest⟩ := List.append_inj hparts (by simp)
    obtain ⟨hnonce, rfl⟩ := List.append_inj hrest (by simp)
    obtain rfl := BytesN.ext hct
    cases hdecap.symm.trans hdecap'
    rw [← hnonce, hinner] at hinner'
    cases hinner'
    exact ⟨readsAs_of_layer hlen hroute, hmeta⟩
  · rintro ⟨hroute, hmeta⟩
    refine openRouted_eq_ok.mpr ⟨⟨_, layer_of_readsAs hroute hlen _⟩, s.inner, ?_, hmeta⟩
    exact ⟨hdrLen, s.routeBytes, ct, s.coins.nonce, body, priv, ss, hlen, rfl, haead.tag_le hencrypt, rfl, hdecap,
      hinner⟩

/-- If AES-GCM lets through only what was sealed, an open returns the header and the inner of a sealing that stands in
the blob. -/
theorem exists_sealing_of_openRouted (haead : P.AeadCorrect) {key : PyVal} {sealings : Set RoutedSealing}
    (hauth : ∀ priv, key.toBytes = .ok priv → P.AeadAuthentic (SealingsMake P sealings) (OpenTries P blob priv))
    {routeHdr innerMetadata : Json} {content : Bytes}
    (hopen : openRouted P (.bytes blob) key = .ok (routeHdr, innerMetadata, content)) :
    ∃ s ∈ sealings, s.StandsIn P blob ∧ ReadsAs P s.routeBytes routeHdr ∧ Layer P s.inner innerMetadata content := by
  obtain ⟨⟨rest, hroute⟩, inner, hopens, hmeta⟩ := openRouted_eq_ok.mp hopen
  obtain ⟨hdrLen, routeBytes, ct, nonce, body, priv, ss, hlen, rfl, -, hpriv, hdecap, hinner⟩ := hopens
  have hcut : ct.val.length + nonce.val.length = ciphertextLen + wrapNonceLen := by
    rw [ct.length_val, nonce.length_val]
  have htries : OpenTries P (hdrLen ++ routeBytes ++ (ct ++ nonce ++ body)) priv (wrapKey P ss (aad routeBytes)) nonce
      (aad routeBytes) body := by
    refine ⟨routeBytes, _, ss, splitOuter_append hlen, ?_, rfl, rfl, ?_, ?_⟩
    · rw [take_append_append ct.length_val]
      exact hdecap
    · rw [slice_append_append ct.length_val hcut]
    · rw [drop_append_append hcut]
  obtain ⟨s, hs, ct', ss', hmakes, hkey, hnonce, haad⟩ := hauth priv hpriv _ _ _ _ htries inner hinner
  obtain rfl := aad_inj haad
  refine ⟨s, hs, ⟨hdrLen, ct', ss', body, ct, hmakes, hlen, by rw [hnonce]⟩, readsAs_of_layer hlen hroute, ?_⟩
  have hsealed := haead.decrypt_encrypt _ _ _ _ _ hmakes.2
  rw [← hkey, ← hnonce, hinner] at hsealed
  cases hsealed
  exact hmeta

/-- `seal_routed` seals the texts of its two headers. -/
theorem exists_sealing_of_sealRouted {coins : SealCoins} {innerMetadata routeHdr : Json} (hmeta : innerMetadata.Plain)
    (hroute : routeHdr.Plain) {content : Bytes} {pub : BytesN publicKeyLen}
    (hseal : sealRouted P coins innerMetadata content (.bytes pub) routeHdr = .ok blob) :
    ∃ s : RoutedSealing, s.pub = pub ∧ s.Seals P blob ∧ ReadsAs P s.routeBytes routeHdr.sortKeys ∧
      Layer P s.inner innerMetadata.sortKeys content := by
  obtain ⟨pub', routeBytes, metaBytes, metaLen, hdrLen, ct, ss, body, hpub, hrouteBytes, hmetaBytes, hmetaLen, hencap,
    hencrypt, hlen, rfl⟩ := sealRouted_eq_ok.mp hseal
  obtain rfl : pub = pub' := BytesN.ext (Option.some.inj hpub)
  rw [canonical_eq hroute] at hrouteBytes
  rw [canonical_eq hmeta] at hmetaBytes
  cases hrouteBytes
  cases hmetaBytes
  refine ⟨⟨coins, pub, _, _⟩, rfl, ⟨hdrLen, ct, ss, body, ⟨hencap, hencrypt⟩, hlen, rfl⟩, ?_, ?_⟩
  · exact ⟨_, Json.scalar_dumps hroute, rfl, Json.loads_dumps _ hroute⟩
  · exact layer_inner P hmeta hmetaLen content

end Sealed

/-! ### Objects -/

theorem isObject_sortKeys {v : Json} : IsObject v.sortKeys ↔ IsObject v := by
  constructor
  · rintro ⟨members, h⟩
    cases v with
    | obj members => exact ⟨members, rfl⟩
    | _ => cases h
  · rintro ⟨members, rfl⟩
    exact ⟨_, rfl⟩

/-- The relay returns an object exactly for an object header, and raises the format error for everything else. -/
def ReadsObjects (P : Primitives) (blob : Bytes) : Prop :=
  ((∃ v, IsObject v ∧ readRouteHeader P (.bytes blob) = .ok v) ↔ ∃ v rest, IsObject v ∧ Layer P blob v rest) ∧
    ((¬∃ v rest, IsObject v ∧ Layer P blob v rest) →
      ∃ msg, readRouteHeader P (.bytes blob) = .error ⟨.pqRouteFormatError, msg⟩)

/-- Whatever an open under the key returns, header and metadata are objects. -/
def OpensObjects (P : Primitives) (blob : Bytes) (key : PyVal) : Prop :=
  ∀ routeHdr innerMetadata content, openRouted P (.bytes blob) key = .ok (routeHdr, innerMetadata, content) →
    IsObject routeHdr ∧ IsObject innerMetadata

theorem ReadsObjects.isObject {P : Primitives} {blob : Bytes} {v : Json} (h : ReadsObjects P blob)
    (hread : readRouteHeader P (.bytes blob) = .ok v) : IsObject v := by
  by_contra hnot
  have hnone : ¬∃ v rest, IsObject v ∧ Layer P blob v rest := by
    rintro ⟨v', rest, hv', hlayer⟩
    cases hread.symm.trans (readRouteHeader_eq_ok.mpr ⟨rest, hlayer⟩)
    exact hnot hv'
  obtain ⟨msg, hraises⟩ := h.2 hnone
  cases hread.symm.trans hraises

/-- The relay looks at the text in front only: it must not be JSON of another kind. -/
theorem readsObjects_iff (P : Primitives) (blob : Bytes) :
    ReadsObjects P blob ↔ ∀ routeHdr rest, Layer P blob routeHdr rest → IsObject routeHdr := by
  constructor
  · intro hreads routeHdr rest hlayer
    exact hreads.isObject (readRouteHeader_eq_ok.mpr ⟨rest, hlayer⟩)
  · intro h
    refine ⟨?_, ?_⟩
    · simp only [readRouteHeader_eq_ok]
      constructor
      · rintro ⟨v, hv, rest, hlayer⟩
        exact ⟨v, rest, hv, hlayer⟩
      · rintro ⟨v, rest, hv, hlayer⟩
        exact ⟨v, hv, rest, hlayer⟩
    · intro hnone
      have hends : Ends (fun _ => False) (fun e => e.cls = .pqRouteFormatError) (readRouteHeader P (.bytes blob)) :=
        (ends_readRouteHeader P blob).mono (fun v ⟨rest, hlayer⟩ => hnone ⟨v, rest, h v rest hlayer, hlayer⟩)
          fun _ he => he
      obtain ⟨⟨cls, msg⟩, hraises, rfl⟩ := ends_false_iff.mp hends
      exact ⟨msg, hraises⟩

/-- For the owner of the key it is what the sender sealed that decides. -/
theorem RoutedSealing.Seals.opensObjects_iff {P : Primitives} {s : RoutedSealing} {blob : Bytes} (h : s.Seals P blob)
    (hkem : P.KemCorrect) (haead : P.AeadCorrect) {priv : BytesN privateKeyLen} (hkey : IsKeypair P priv s.pub) :
    OpensObjects P blob (.bytes priv) ↔ s.SealsObjects P := by
  unfold OpensObjects
  simp only [h.openRouted_iff hkem haead hkey, RoutedSealing.SealsObjects, and_imp]

theorem opensObjects_of_sealings {P : Primitives} (haead : P.AeadCorrect) {blob : Bytes} {key : PyVal}
    {sealings : Set RoutedSealing}
    (hauth : ∀ priv, key.toBytes = .ok priv → P.AeadAuthentic (SealingsMake P sealings) (OpenTries P blob priv))
    (hobjects : ∀ s ∈ sealings, s.StandsIn P blob → s.SealsObjects P) : OpensObjects P blob key := by
  intro routeHdr innerMetadata content hopen
  obtain ⟨s, hs, hstands, hroute, hmeta⟩ := exists_sealing_of_openRouted haead hauth hopen
  exact hobjects s hs hstands _ _ _ hroute hmeta

theorem opensObjects_sealRouted_iff {P : Primitives} (hkem : P.KemCorrect) (haead : P.AeadCorrect)
    {priv : BytesN privateKeyLen} {pub : BytesN publicKeyLen} (hkey : IsKeypair P priv pub) {coins : SealCoins}
    {innerMetadata routeHdr : Json} (hmeta : innerMetadata.Plain) (hroute : routeHdr.Plain) {content blob : Bytes}
    (hseal : sealRouted P coins innerMetadata content (.bytes pub) routeHdr = .ok blob) :
    OpensObjects P blob (.bytes priv) ↔ IsObject routeHdr ∧ IsObject innerMetadata := by
  obtain ⟨s, rfl, hseals, hreads, hlayer⟩ := exists_sealing_of_sealRouted hmeta hroute hseal
  refine (hseals.opensObjects_iff hkem haead hkey).trans (Iff.trans ?_ (and_congr isObject_sortKeys isObject_sortKeys))
  constructor
  · intro hobjects
    exact hobjects _ _ _ hreads hlayer
  · intro hobjects v v' content' hreads' hlayer'
    rw [readsAs_unique hreads' hreads, (layer_unique hlayer' hlayer).1]
    exact hobjects

/-- The relay accepts object headers only, exactly where the text in front of a blob is no JSON of another kind. The
owner of a key opens to objects only, exactly where the sender of the blob sealed no JSON of another kind; for a blob
of `seal_routed` this says that both of its headers are objects. And on any blob, under any key, an open gives objects
if no sealing whose header, nonce and ciphertext stand in the blob has JSON of another kind. -/
theorem decodes_objects_iff (P : Primitives) :
    (∀ blob, ReadsObjects P blob ↔ ∀ routeHdr rest, Layer P blob routeHdr rest → IsObject routeHdr) ∧
    (P.KemCorrect → P.AeadCorrect →
      (∀ (priv : BytesN privateKeyLen) (s : RoutedSealing) (blob : Bytes), IsKeypair P priv s.pub → s.Seals P blob →
        (OpensObjects P blob (.bytes priv) ↔ s.SealsObjects P)) ∧
      (∀ (priv : BytesN privateKeyLen) (pub : BytesN publicKeyLen) coins innerMetadata routeHdr content blob,
        IsKeypair P priv pub → innerMetadata.Plain → routeHdr.Plain →
        sealRouted P coins innerMetadata content (.bytes pub) routeHdr = .ok blob →
        (OpensObjects P blob (.bytes priv) ↔ IsObject routeHdr ∧ IsObject innerMetadata)) ∧
      ∀ blob key sealings,
        (∀ priv, key.toBytes = .ok priv → P.AeadAuthentic (SealingsMake P sealings) (OpenTries P blob priv)) →
        (∀ s ∈ sealings, s.StandsIn P blob → s.SealsObjects P) → OpensObjects P blob key) := by
  refine ⟨readsObjects_iff P, fun hkem haead => ⟨?_, ?_, ?_⟩⟩
  · intro priv s blob hkey hseals
    exact hseals.opensObjects_iff hkem haead hkey
  · intro priv pub coins innerMetadata routeHdr content blob hkey hmeta hroute hseal
    exact opensObjects_sealRouted_iff hkem haead hkey hmeta hroute hseal
  · intro blob key sealings hauth hobjects
    exact opensObjects_of_sealings haead hauth hobjects

/-! ### An array for a header -/

namespace HeaderExample

open StandIn (aliceCoins)
open Example (P keys coins routeHdr plain_routeHdr plain_empty exists_sealed)

theorem plain_array : Json.Plain (.arr []) := trivial

theorem not_isObject_array : ¬IsObject (.arr []) := by
  rintro ⟨members, h⟩
  cases h

theorem exists_array_blob : ∃ blob,
    sealRouted P coins (.arr []) (ascii "hi") (.bytes keys.publicKey) (.arr []) = .ok blob :=
  ⟨_, sealRouted_eq_ok.mpr ⟨keys.publicKey, _, _, _, _, _, _, _, rfl, canonical_eq plain_array,
    canonical_eq plain_array, if_pos (by decide), StandIn.hybridEncap_sums _ _ _ _, rfl, if_pos (by decide), rfl⟩⟩

/-- What the recipient's own open of a sealed blob tries was sealed. -/
theorem aeadAuthentic_own {s : RoutedSealing} {blob : Bytes} (h : s.Seals P blob) {priv : BytesN privateKeyLen}
    (hkey : IsKeypair P priv s.pub) : P.AeadAuthentic (SealingsMake P {s}) (OpenTries P blob priv) := by
  have hkem : P.KemCorrect := StandIn.kemCorrect _
  obtain ⟨hdrLen, ct, ss, body, hmakes, hlen, rfl⟩ := h
  rintro _ _ _ _ ⟨routeBytes, sealedInner, ss', hsplit, hdecap, rfl, rfl, rfl, rfl⟩ _ -
  have hcut : ct.val.length + s.coins.nonce.val.length = ciphertextLen + wrapNonceLen := by
    rw [ct.length_val, s.coins.nonce.length_val]
  rw [splitOuter_append hlen] at hsplit
  cases hsplit
  rw [take_append_append ct.length_val, hybridDecap_hybridEncap hkem hkey hmakes.1] at hdecap
  cases hdecap
  refine ⟨s, rfl, ct, ss, ?_, rfl, slice_append_append ct.length_val hcut, rfl⟩
  rw [drop_append_append hcut]
  exact hmakes

/-- A blob with two objects, whose destination opens to objects; and one with two arrays, whose destination does
not. -/
theorem decodes_objects_runs : ∃ blob blob',
    sealRouted P coins (.obj []) (ascii "hi") (.bytes keys.publicKey) (.obj routeHdr) = .ok blob ∧
      ReadsObjects P blob ∧ OpensObjects P blob (.bytes keys.privateKey) ∧
      sealRouted P coins (.arr []) (ascii "hi") (.bytes keys.publicKey) (.arr []) = .ok blob' ∧
      ¬OpensObjects P blob' (.bytes keys.privateKey) := by
  have hkem : P.KemCorrect := StandIn.kemCorrect _
  have haead : P.AeadCorrect := StandIn.aeadCorrect _ _
  have hkey : IsKeypair P keys.privateKey keys.publicKey := StandIn.isKeypair _ _ aliceCoins
  obtain ⟨blob, hseal⟩ := exists_sealed
  obtain ⟨blob', hseal'⟩ := exists_array_blob
  obtain ⟨hreads, hopens⟩ := decodes_objects_iff P
  obtain ⟨hsealing, hsealed, hany⟩ := hopens hkem haead
  refine ⟨blob, blob', hseal, ?_, ?_, hseal', ?_⟩
  · refine (hreads blob).mpr fun v rest hlayer => ?_
    have hread := (openRouted_sealRouted hkem haead hkey plain_empty plain_routeHdr hseal).1
    cases hread.symm.trans (readRouteHeader_eq_ok.mpr ⟨rest, hlayer⟩)
    exact isObject_sortKeys.mpr ⟨_, rfl⟩
  · obtain ⟨s, hpub, hseals, -, -⟩ := exists_sealing_of_sealRouted plain_empty plain_routeHdr hseal
    have hs : IsKeypair P keys.privateKey s.pub := hpub ▸ hkey
    have hobjects : s.SealsObjects P := (hsealing _ s blob hs hseals).mp
      ((hsealed _ _ _ _ _ _ _ hkey plain_empty plain_routeHdr hseal).mpr ⟨⟨_, rfl⟩, ⟨_, rfl⟩⟩)
    refine hany blob _ {s} (fun priv hpriv => ?_) fun s' hs' _ => ?_
    · cases hpriv
      exact aeadAuthentic_own hseals hs
    · obtain rfl : s' = s := hs'
      exact hobjects
  · rw [hsealed _ _ _ _ _ _ _ hkey plain_array plain_array hseal']
    exact fun h => not_isObject_array h.1

/-- A blob that is sealed with an empty array for both headers: the relay and the destination return arrays. -/
theorem exists_array_headers : ∃ blob,
    sealRouted P coins (.arr []) (ascii "hi") (.bytes keys.publicKey) (.arr []) = .ok blob ∧
      readRouteHeader P (.bytes blob) = .ok (.arr []) ∧
      openRouted P (.bytes blob) (.bytes keys.privateKey) = .ok (.arr [], .arr [], ascii "hi") ∧
      ¬ReadsObjects P blob ∧ ¬OpensObjects P blob (.bytes keys.privateKey) := by
  obtain ⟨blob, hseal⟩ := exists_array_blob
  obtain ⟨hread, hopen⟩ := openRouted_sealRouted (StandIn.kemCorrect _) (StandIn.aeadCorrect _ _)
    (StandIn.isKeypair _ _ aliceCoins) plain_array plain_array hseal
  refine ⟨blob, hseal, hread, hopen, ?_, ?_⟩
  · intro hreads
    exact not_isObject_array (hreads.isObject hread)
  · intro hopens
    exact not_isObject_array (hopens _ _ _ hopen).1

end HeaderExample

end Pqroute
end SkPqc
