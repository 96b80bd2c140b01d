import SkPqc.Model.Pqroute
import SkPqc.Proof.StandIn
import SkPqc.Wire.JsonRoundTrip

/-!
# The routing envelope

Each layer of the envelope is a length prefix, a JSON text and free bytes, so one cut lemma serves the
relay and the destination (`splitOuter_eq_ok`, `splitInner_eq_ok`). Both parse the header from the
same bytes, on any blob (`readRouteHeader_of_openRouted`). The text of a header is canonical
(`canonical_complete`).
-/

namespace SkPqc
namespace Pqroute

open Wire Pqkem

/-! ### Cutting -/

theorem packU32_eq_some {n : Nat} {b : Bytes} (h : packU32 n = some b) :
    b.length = lenPrefix ∧ unpackU32 b = n := by
  unfold packU32 at h
  split at h
  · rename_i hn
    cases h
    exact ⟨length_beBytes 4 n, unpackU32_beBytes hn⟩
  · cases h

/-- A length that fits cuts the bytes in three. -/
theorem exists_cut {b : Bytes} (hlong : ¬b.length < lenPrefix)
    (hfits : ¬lenPrefix + unpackU32 (b.take lenPrefix) > b.length) :
    ∃ lenBytes, packU32 (slice b lenPrefix (lenPrefix + unpackU32 (b.take lenPrefix))).length = some lenBytes ∧
      b = lenBytes ++ slice b lenPrefix (lenPrefix + unpackU32 (b.take lenPrefix)) ++
        b.drop (lenPrefix + unpackU32 (b.take lenPrefix)) := by
  have hfour : (b.take lenPrefix).length = 4 := List.length_take_of_le (Nat.le_of_not_lt hlong)
  refine ⟨b.take lenPrefix, ?_, ?_⟩
  · rw [length_slice _ (Nat.le_of_not_lt hfits), Nat.add_sub_cancel_left, packU32_unpackU32 hfour]
  · rw [take_append_slice _ (Nat.le_add_right ..), List.take_append_drop]

theorem splitOuter_append {hdrLen routeBytes rest : Bytes} (hlen : packU32 routeBytes.length = some hdrLen) :
    splitOuter (.bytes (hdrLen ++ routeBytes ++ rest)) = .ok (routeBytes, rest) := by
  obtain ⟨hfour, hvalue⟩ := packU32_eq_some hlen
  have htake : (hdrLen ++ routeBytes ++ rest).take lenPrefix = hdrLen := take_append_append hfour
  have hcut : hdrLen.length + routeBytes.length = lenPrefix + routeBytes.length := by rw [hfour]
  have htotal : (hdrLen ++ routeBytes ++ rest).length = lenPrefix + routeBytes.length + rest.length := by
    rw [List.length_append, List.length_append, hfour]
  rw [splitOuter]
  simp only [PyVal.data?_bytes, htake, hvalue, htotal]
  rw [if_neg (by omega), if_neg (by omega), slice_append_append hfour hcut, drop_append_append hcut]

/-- A blob is cut into what it is made of. -/
theorem splitOuter_eq_ok {blob routeBytes rest : Bytes} :
    splitOuter (.bytes blob) = .ok (routeBytes, rest) ↔
      ∃ hdrLen, packU32 routeBytes.length = some hdrLen ∧ blob = hdrLen ++ routeBytes ++ rest := by
  constructor
  · intro h
    simp only [splitOuter, PyVal.data?_bytes] at h
    by_cases hlong : blob.length < lenPrefix
    · rw [if_pos hlong] at h
      cases h
    by_cases hfits : lenPrefix + unpackU32 (blob.take lenPrefix) > blob.length
    · rw [if_neg hlong, if_pos hfits] at h
      cases h
    · rw [if_neg hlong, if_neg hfits] at h
      cases h
      exact exists_cut hlong hfits
  · rintro ⟨hdrLen, hlen, rfl⟩
    exact splitOuter_append hlen

/-! ### JSON headers -/

theorem canonical_eq {v : Json} (h : v.Plain) : canonical v = .ok (utf8 (Json.dumps v)) := by
  rw [canonical, canonicalJson, strEncode_of_scalar (Json.scalar_dumps h)]

/-- The canonical text of an object fixes it up to the order of members at every level, and nothing more. -/
theorem canonical_complete {a b : List (Str × Json)} (ha : Json.Plain (.obj a)) (hb : Json.Plain (.obj b)) :
    ∃ text text', canonical (.obj a) = .ok text ∧ canonical (.obj b) = .ok text' ∧
      (text = text' ↔ Json.Same (.obj a) (.obj b)) := by
  refine ⟨_, _, canonical_eq ha, canonical_eq hb, ?_⟩
  rw [← Json.dumps_eq_iff ha hb]
  constructor
  · exact utf8_injective (Json.scalar_dumps ha) (Json.scalar_dumps hb)
  · exact congrArg utf8

/-- An object with its members in two orders, inside and outside, has one text; a Boolean and a number differ. -/
theorem canonical_complete_run :
    (∃ text, canonical (.obj [(str "a", .int 1), (str "b", .obj [(str "c", .null), (str "d", .str [])])]) = .ok text ∧
        canonical (.obj [(str "b", .obj [(str "d", .str []), (str "c", .null)]), (str "a", .int 1)]) = .ok text) ∧
      canonical (.obj [(str "a", .bool true)]) ≠ canonical (.obj [(str "a", .int 1)]) := by
  have ha : Scalar (str "a") := scalar_of_isAscii (by decide)
  have hb : Scalar (str "b") := scalar_of_isAscii (by decide)
  have hc : Scalar (str "c") := scalar_of_isAscii (by decide)
  have hd : Scalar (str "d") := scalar_of_isAscii (by decide)
  constructor
  · obtain ⟨text, text', htext, htext', hiff⟩ := canonical_complete
      (a := [(str "a", .int 1), (str "b", .obj [(str "c", .null), (str "d", .str [])])])
      (b := [(str "b", .obj [(str "d", .str []), (str "c", .null)]), (str "a", .int 1)])
      ⟨by decide, ⟨ha, trivial⟩, ⟨hb, by decide, ⟨hc, trivial⟩, ⟨hd, scalar_nil⟩, trivial⟩, trivial⟩
      ⟨by decide, ⟨hb, by decide, ⟨hd, scalar_nil⟩, ⟨hc, trivial⟩, trivial⟩, ⟨ha, trivial⟩, trivial⟩
    have hsame : text = text' :=
      hiff.mpr ⟨rfl, ⟨_, rfl, rfl⟩, ⟨_, rfl, rfl, ⟨_, rfl, trivial⟩, ⟨_, rfl, rfl⟩, trivial⟩, trivial⟩
    exact ⟨text, htext, hsame ▸ htext'⟩
  · obtain ⟨text, text', htext, htext', hiff⟩ := canonical_complete (a := [(str "a", .bool true)])
      (b := [(str "a", .int 1)]) ⟨by decide, ⟨ha, trivial⟩, trivial⟩ ⟨by decide, ⟨ha, trivial⟩, trivial⟩
    rw [htext, htext']
    intro heq
    obtain ⟨-, ⟨w, hw, hsame⟩, -⟩ := hiff.mp (Except.ok.inj heq)
    cases hw
    exact hsame

theorem loadsHeader_eq_ok {P : Primitives} {cls : ExcClass} {text : String} {b : Bytes} {v : Json} :
    loadsHeader P.jsonLoads cls text b = .ok v ↔ ∃ s, Scalar s ∧ utf8 s = b ∧ Json.loads P.floatText s = some v := by
  simp only [loadsHeader, tryExcept_raise_eq_ok, bind_eq_ok, bytesDecode_eq_ok, Primitives.jsonLoads, ofOption_eq_ok,
    and_assoc]

theorem loadsHeader_dumps (P : Primitives) (cls : ExcClass) (text : String) {v : Json} (h : v.Plain) :
    loadsHeader P.jsonLoads cls text (utf8 (Json.dumps v)) = .ok v.sortKeys :=
  loadsHeader_eq_ok.mpr ⟨_, Json.scalar_dumps h, rfl, Json.loads_dumps _ h⟩

/-- A four-byte length, a UTF-8 text of that length that is JSON for `v`, and a rest. -/
def Layer (P : Primitives) (b : Bytes) (v : Json) (rest : Bytes) : Prop :=
  ∃ lenBytes text, Scalar text ∧ packU32 (utf8 text).length = some lenBytes ∧
    Json.loads P.floatText text = some v ∧ b = lenBytes ++ utf8 text ++ rest

/-- An inner of its parts is read as a metadata text and the content behind it. -/
theorem splitInner_append {jsonLoads : Str → Py Json} {metaLen metaBytes : Bytes} (content : Bytes)
    (hlen : packU32 metaBytes.length = some metaLen) :
    splitInner jsonLoads (metaLen ++ metaBytes ++ content) = (do
      let innerMetadata ← loadsHeader jsonLoads .pqRouteOpenError "inner metadata not valid JSON: " metaBytes
      return (innerMetadata, content)) := by
  obtain ⟨hfour, hvalue⟩ := packU32_eq_some hlen
  have htake : (metaLen ++ metaBytes ++ content).take lenPrefix = metaLen := take_append_append hfour
  have hcut : metaLen.length + metaBytes.length = lenPrefix + metaBytes.length := by rw [hfour]
  have htotal : (metaLen ++ metaBytes ++ content).length = lenPrefix + metaBytes.length + content.length := by
    rw [List.length_append, List.length_append, hfour]
  rw [splitInner]
  simp only [htake, hvalue, htotal, slice_append_append hfour hcut, drop_append_append hcut]
  rw [if_neg (by omega), if_neg (by omega)]

theorem splitInner_eq_ok {P : Primitives} {inner content : Bytes} {v : Json} :
    splitInner P.jsonLoads inner = .ok (v, content) ↔ Layer P inner v content := by
  constructor
  · intro h
    rw [splitInner] at h
    by_cases hlong : inner.length < lenPrefix
    · rw [if_pos hlong] at h
      cases h
    · simp only [if_neg hlong, guard_eq_ok, bind_eq_ok, loadsHeader_eq_ok] at h
      obtain ⟨hfits, v', ⟨text, htext, hutf8, hloads⟩, hret⟩ := h
      cases hret
      obtain ⟨lenBytes, hlen, hinner⟩ := exists_cut hlong hfits
      rw [← hutf8] at hlen hinner
      exact ⟨lenBytes, text, htext, hlen, hloads, hinner⟩
  · rintro ⟨lenBytes, text, htext, hlen, hloads, rfl⟩
    have hheader : loadsHeader P.jsonLoads .pqRouteOpenError "inner metadata not valid JSON: " (utf8 text) = .ok v :=
      loadsHeader_eq_ok.mpr ⟨text, htext, rfl, hloads⟩
    rw [splitInner_append content hlen, hheader]
    rfl

/-- The metadata and the content of a plain inner. -/
theorem layer_inner (P : Primitives) {innerMetadata : Json} (hmeta : innerMetadata.Plain) {metaLen : Bytes}
    (hlen : packU32 (utf8 (Json.dumps innerMetadata)).length = some metaLen) (content : Bytes) :
    Layer P (metaLen ++ utf8 (Json.dumps innerMetadata) ++ content) innerMetadata.sortKeys content :=
  ⟨metaLen, _, Json.scalar_dumps hmeta, hlen, Json.loads_dumps _ hmeta, rfl⟩

theorem layer_unique {b content content' : Bytes} {v v' : Json} (h : Layer P b v content)
    (h' : Layer P b v' content') : v = v' ∧ content = content' := by
  have hsame := (splitInner_eq_ok.mpr h).symm.trans (splitInner_eq_ok.mpr h')
  exact Prod.mk.inj (Except.ok.inj hsame)

/-! ### Sealing and opening -/

theorem sealRouted_eq_ok {P : Primitives} {coins : SealCoins} {innerMetadata routeHdr : Json} {content : Bytes}
    {destHybridPub : PyVal} {blob : Bytes} :
    sealRouted P coins innerMetadata content destHybridPub routeHdr = .ok blob ↔
      ∃ (pub : BytesN publicKeyLen) (routeBytes metaBytes metaLen hdrLen : Bytes) (ct : BytesN ciphertextLen)
          (ss : BytesN 32) (sealedInner : Bytes),
        destHybridPub.data? = some pub.val ∧ canonical routeHdr = .ok routeBytes ∧
        canonical innerMetadata = .ok metaBytes ∧ packU32 metaBytes.length = some metaLen ∧
        hybridEncap P coins.encap (.bytes pub) hkdfInfo = .ok (ct, ss) ∧
        P.encrypt (wrapKey P ss (aad routeBytes)) coins.nonce (metaLen ++ metaBytes ++ content) (aad routeBytes)
          = .ok sealedInner ∧
        packU32 routeBytes.length = some hdrLen ∧
        blob = hdrLen ++ routeBytes ++ (ct ++ coins.nonce ++ sealedInner) := by
  unfold sealRouted
  cases hdata : destHybridPub.data? with
  | none => simp [raise]
  | some pub =>
    by_cases hlen : pub.length = publicKeyLen
    · simp only [bind_eq_ok, tryExcept_raise_eq_ok, ofOption_eq_ok, Prod.exists, hlen, ne_eq, not_true_eq_false,
        if_false]
      constructor
      · rintro ⟨a, b, ⟨routeBytes, hroute, metaBytes, hmeta, hpair⟩, metaLen, hmetaLen, ct, ss, hencap, inner,
          hinner, hdrLen, hhdrLen, hblob⟩
        cases hpair
        refine ⟨⟨pub, hlen⟩, a, b, metaLen, hdrLen, ct, ss, inner, rfl, hroute, hmeta, hmetaLen,
          hencap, hinner, hhdrLen, ?_⟩
        rw [← Except.ok.inj hblob]
        simp only [List.append_assoc]
      · rintro ⟨pub', routeBytes, metaBytes, metaLen, hdrLen, ct, ss, inner, hpub, hroute, hmeta, hmetaLen, hencap,
          hinner, hhdrLen, rfl⟩
        cases hpub
        refine ⟨routeBytes, metaBytes, ⟨routeBytes, hroute, metaBytes, hmeta, rfl⟩, metaLen, hmetaLen, ct, ss, hencap,
          inner, hinner, hdrLen, hhdrLen, ?_⟩
        simp only [List.append_assoc]
        rfl
    · simp only [hlen, ne_eq, not_false_eq_true, if_true, raise, error_bind]
      constructor
      · intro h
        cases h
      · rintro ⟨pub', -, -, -, -, -, -, -, hpub, -⟩
        exact absurd (Option.some.inj hpub ▸ pub'.length_val) hlen

/-- On a blob of its parts an open is a header, a decapsulation, a decryption and a cut. -/
theorem openRoutedWith_append {jsonLoads : Str → Py Json} {P : Primitives} {hdrLen routeBytes body : Bytes}
    (ct : BytesN ciphertextLen) (nonce : BytesN wrapNonceLen) (hlen : packU32 routeBytes.length = some hdrLen)
    (hbody : aesgcmTagLen ≤ body.length) {routeHdr : Json}
    (hroute : loadsHeader jsonLoads .pqRouteFormatError "route header not valid JSON: " routeBytes = .ok routeHdr)
    {key : PyVal} {priv : Bytes} (hkey : key.toBytes = .ok priv) {ss : BytesN 32}
    (hdecap : hybridDecap P (.bytes ct) (.bytes priv) hkdfInfo = .ok ss) {inner : Bytes}
    (hinner : P.decrypt (wrapKey P ss (aad routeBytes)) nonce body (aad routeBytes) = .ok inner) :
    openRoutedWith jsonLoads P (.bytes (hdrLen ++ routeBytes ++ (ct ++ nonce ++ body))) key = (do
      let (innerMetadata, content) ← splitInner jsonLoads inner
      return (routeHdr, innerMetadata, content)) := by
  have hct := ct.length_val
  have hnonce := nonce.length_val
  have hsealed : ¬(ct.val ++ nonce.val ++ body).length < sealedMinLen := by
    have hmin : sealedMinLen = ciphertextLen + wrapNonceLen + aesgcmTagLen := rfl
    simp only [List.length_append]
    omega
  have hcut : ct.val.length + nonce.val.length = ciphertextLen + wrapNonceLen := by rw [hct, hnonce]
  simp only [openRoutedWith, splitOuter_append hlen, ok_bind, if_neg hsealed, hroute, take_append_append hct,
    slice_append_append hct hcut, drop_append_append hcut, hkey, hdecap, hinner, tryExcept_ok]

/-- The relay reads the header that the destination opens with, on any blob and under any key. -/
theorem readRouteHeader_of_openRouted {P : Primitives} {blob priv : PyVal} {routeHdr innerMetadata : Json}
    {content : Bytes} (h : openRouted P blob priv = .ok (routeHdr, innerMetadata, content)) :
    readRouteHeader P blob = .ok routeHdr := by
  simp only [openRouted, openRoutedWith, bind_eq_ok, Prod.exists] at h
  obtain ⟨routeBytes, sealedInner, hsplit, h⟩ := h
  split at h
  · simp only [raise, error_bind] at h
    cases h
  · simp only [bind_eq_ok, Prod.exists] at h
    obtain ⟨_, hroute, _, _, _, _, _, _, _, hret⟩ := h
    cases hret
    rw [readRouteHeader, readRouteHeaderWith, hsplit, ok_bind]
    exact hroute

/-- A sealed envelope is read back by the relay and opened by the destination, each value with its keys
sorted, if the interpreter reads the two texts. -/
theorem openRoutedWith_sealRouted {jsonLoads : Str → Py Json} {P : Primitives} (hkem : P.KemCorrect)
    (haead : P.AeadCorrect) {priv : BytesN privateKeyLen} {pub : BytesN publicKeyLen} (hkey : IsKeypair P priv pub)
    {coins : SealCoins} {innerMetadata routeHdr : Json} (hmeta : innerMetadata.Plain) (hroute : routeHdr.Plain)
    (hloads : ∀ v ∈ [innerMetadata, routeHdr], ∀ cls text,
      loadsHeader jsonLoads cls text (utf8 (Json.dumps v)) = .ok v.sortKeys) {content blob : Bytes}
    (hseal : sealRouted P coins innerMetadata content (.bytes pub) routeHdr = .ok blob) :
    readRouteHeaderWith jsonLoads (.bytes blob) = .ok routeHdr.sortKeys ∧
      openRoutedWith jsonLoads P (.bytes blob) (.bytes priv) =
        .ok (routeHdr.sortKeys, innerMetadata.sortKeys, content) := by
  obtain ⟨pub', routeBytes, metaBytes, metaLen, hdrLen, ct, ss, sealedInner, hpub, hrouteBytes, hmetaBytes,
    hmetaLen, hencap, hinner, hhdrLen, rfl⟩ := sealRouted_eq_ok.mp hseal
  obtain rfl : pub = pub' := BytesN.ext (Option.some.inj hpub)
  rw [canonical_eq hroute] at hrouteBytes
  rw [canonical_eq hmeta] at hmetaBytes
  cases hrouteBytes
  cases hmetaBytes
  have hmetaLoads := hloads innerMetadata (by simp) .pqRouteOpenError "inner metadata not valid JSON: "
  have hrouteLoads := hloads routeHdr (by simp) .pqRouteFormatError "route header not valid JSON: "
  constructor
  · rw [readRouteHeaderWith, splitOuter_append hhdrLen, ok_bind]
    exact hrouteLoads
  · rw [openRoutedWith_append ct coins.nonce hhdrLen (haead.tag_le hinner) hrouteLoads rfl
      (hybridDecap_hybridEncap hkem hkey hencap) (haead.decrypt_encrypt _ _ _ _ _ hinner),
      splitInner_append content hmetaLen, hmetaLoads]
    rfl

theorem openRouted_sealRouted {P : Primitives} (hkem : P.KemCorrect) (haead : P.AeadCorrect)
    {priv : BytesN privateKeyLen} {pub : BytesN publicKeyLen} (hkey : IsKeypair P priv pub) {coins : SealCoins}
    {innerMetadata routeHdr : Json} (hmeta : innerMetadata.Plain) (hroute : routeHdr.Plain) {content blob : Bytes}
    (hseal : sealRouted P coins innerMetadata content (.bytes pub) routeHdr = .ok blob) :
    readRouteHeader P (.bytes blob) = .ok routeHdr.sortKeys ∧
      openRouted P (.bytes blob) (.bytes priv) = .ok (routeHdr.sortKeys, innerMetadata.sortKeys, content) := by
  refine openRoutedWith_sealRouted hkem haead hkey hmeta hroute (fun v hv cls text => loadsHeader_dumps P cls text ?_)
    hseal
  obtain rfl | rfl : v = innerMetadata ∨ v = routeHdr := by simpa using hv
  · exact hmeta
  · exact hroute

/-- Round trip and relay agreement. What is sealed is read and opened as the same JSON values, with the
content unchanged; and on any blob whatever, an open returns the header that the relay reads. -/
theorem roundTrip_and_agreement (P : Primitives) :
    (P.KemCorrect → P.AeadCorrect → ∀ (priv : BytesN privateKeyLen) (pub : BytesN publicKeyLen),
      IsKeypair P priv pub → ∀ (coins : SealCoins) (routeHdr innerMetadata : List (Str × Json)) (content blob : Bytes),
      Json.Plain (.obj routeHdr) → Json.Plain (.obj innerMetadata) →
      sealRouted P coins (.obj innerMetadata) content (.bytes pub) (.obj routeHdr) = .ok blob →
      ∃ h m, readRouteHeader P (.bytes blob) = .ok h ∧ openRouted P (.bytes blob) (.bytes priv) = .ok (h, m, content) ∧
        Json.Same h (.obj routeHdr) ∧ Json.Same m (.obj innerMetadata)) ∧
    ∀ (blob : Bytes) (key : PyVal) (h m : Json) (c : Bytes),
      openRouted P (.bytes blob) key = .ok (h, m, c) → readRouteHeader P (.bytes blob) = .ok h := by
  refine ⟨?_, fun _ _ _ _ _ hopen => readRouteHeader_of_openRouted hopen⟩
  intro hkem haead priv pub hkey coins routeHdr innerMetadata content blob hroute hmeta hseal
  obtain ⟨hread, hopen⟩ := openRouted_sealRouted hkem haead hkey hmeta hroute hseal
  exact ⟨_, _, hread, hopen, Json.same_sortKeys hroute, Json.same_sortKeys hmeta⟩

namespace Example

open StandIn (aliceCoins encapCoins)

def P : Primitives := StandIn.primitives StandIn.sums []

def keys : HybridKeyPair := StandIn.keypair StandIn.sums aliceCoins

def routeHdr : List (Str × Json) := [(str "to_relay", .str (str "r1")), (str "v", .int 1)]

theorem plain_routeHdr : Json.Plain (.obj routeHdr) := by
  refine ⟨by decide, ?_⟩
  simp only [routeHdr, Json.PlainMembers, Json.Plain, and_true]
  exact ⟨⟨scalar_of_isAscii (by decide), scalar_of_isAscii (by decide)⟩, scalar_of_isAscii (by decide)⟩

theorem plain_empty : Json.Plain (.obj []) := ⟨List.nodup_nil, trivial⟩

def coins : SealCoins := { encap := encapCoins, nonce := .zero 12 }

theorem exists_sealed : ∃ blob,
    sealRouted P coins (.obj []) (ascii "hi") (.bytes keys.publicKey) (.obj routeHdr) = .ok blob :=
  ⟨_, sealRouted_eq_ok.mpr ⟨keys.publicKey, _, _, _, _, _, _, _, rfl, canonical_eq plain_routeHdr,
    canonical_eq plain_empty, if_pos (by decide), StandIn.hybridEncap_sums _ _ _ _, rfl, if_pos (by decide), rfl⟩⟩

/-- Two bytes routed over a relay, with empty metadata. -/
theorem roundTrip_run : ∃ blob h m,
    sealRouted P coins (.obj []) (ascii "hi") (.bytes keys.publicKey) (.obj routeHdr) = .ok blob ∧
      readRouteHeader P (.bytes blob) = .ok h ∧
      openRouted P (.bytes blob) (.bytes keys.privateKey) = .ok (h, m, ascii "hi") ∧
      Json.Same h (.obj routeHdr) ∧ Json.Same m (.obj []) := by
  obtain ⟨blob, hseal⟩ := exists_sealed
  obtain ⟨h, m, hread, hopen, hh, hm⟩ := (roundTrip_and_agreement P).1 (StandIn.kemCorrect _) (StandIn.aeadCorrect _ _)
    _ _ (StandIn.isKeypair _ _ aliceCoins) _ _ _ _ _ plain_routeHdr plain_empty hseal
  exact ⟨blob, h, m, hseal, hread, hopen, hh, hm⟩

end Example

end Pqroute
end SkPqc
