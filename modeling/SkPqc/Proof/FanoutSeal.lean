import SkPqc.Proof.Envelope

/-!
# The fanout envelope: what a seal packs

`exists_envelope` takes a run of `sealMulti` apart into an envelope: one slot for each recipient, in the
order of the list (`SealedFor`), a header, and the body under an AAD made of the sealed suite, the parties
and the key ids. `headerAad_pqdm2Header` says that an open rebuilds that AAD from the header.
-/

namespace SkPqc
namespace Pqdm

open Wire Pqkem

/-! ### The AAD -/

/-- The suite and the parties, as they stand in the AAD. -/
def parties (suite sender recipient : Str) : Str := suite ++ str "|" ++ sender ++ str "|" ++ recipient

theorem scalar_parties {suite sender recipient : Str} :
    Scalar (parties suite sender recipient) ↔ Scalar suite ∧ Scalar sender ∧ Scalar recipient := by
  have hbar : Scalar (str "|") := scalar_of_isAscii (by decide)
  simp only [parties, scalar_append, hbar, and_true, and_assoc]

def aadBytes (P : Primitives) (parties joined : Str) : Bytes :=
  utf8 parties ++ (ascii "|" ++ (P.sha256 (utf8 joined)).val)

theorem pqdm2Aad_eq_ok {P : Primitives} {suite kids : Json} {sender recipient : Str} {aad : Bytes} :
    pqdm2Aad P suite sender recipient kids = .ok aad ↔
      ∃ su joined, suite = .str su ∧ sortedJoin kids = .ok joined ∧ Scalar joined ∧
        Scalar (parties su sender recipient) ∧ aad = aadBytes P (parties su sender recipient) joined := by
  simp only [pqdm2Aad, bind_eq_ok, strEncode_eq_ok, jsonEncode_eq_ok, scalar_parties]
  constructor
  · rintro ⟨joined, hjoined, _, ⟨hscalar, rfl⟩, _, ⟨su, rfl, hsu, rfl⟩, _, ⟨hsender, rfl⟩, _, ⟨hrecipient, rfl⟩, hret⟩
    cases hret
    refine ⟨su, joined, rfl, hjoined, hscalar, ⟨hsu, hsender, hrecipient⟩, ?_⟩
    simp only [aadBytes, parties, utf8_append, List.append_assoc]
    rfl
  · rintro ⟨su, joined, rfl, hjoined, hscalar, ⟨hsu, hsender, hrecipient⟩, rfl⟩
    refine ⟨joined, hjoined, _, ⟨hscalar, rfl⟩, _, ⟨su, rfl, hsu, rfl⟩, _, ⟨hsender, rfl⟩, _, ⟨hrecipient, rfl⟩, ?_⟩
    simp only [aadBytes, parties, utf8_append, List.append_assoc]
    rfl

/-- The digest ends the AAD at a fixed length, so the AAD determines the parties and the digest. -/
theorem aadBytes_inj {P : Primitives} {p p' joined joined' : Str} (hp : Scalar p) (hp' : Scalar p') :
    aadBytes P p joined = aadBytes P p' joined' ↔ p = p' ∧ P.sha256 (utf8 joined) = P.sha256 (utf8 joined') := by
  constructor
  · intro h
    obtain ⟨hparties, hdigest⟩ := List.append_inj' h (by simp)
    exact ⟨utf8_injective hp hp' hparties, BytesN.ext (List.append_cancel_left hdigest)⟩
  · rintro ⟨rfl, hdigest⟩
    rw [aadBytes, aadBytes, hdigest]

theorem sortedJoin_strs (l : List Str) : sortedJoin (.arr (l.map .str)) = .ok (sortStrs l).flatten := by
  simp only [sortedJoin, List.map_map, Function.comp_def, allSome_map_some]

/-! ### The AAD of a header -/

/-- The suite a header names. -/
def headerSuite (P : Primitives) (header : Bytes) : Py Json := do
  jsonGet (← P.jsonLoadsBytes header) (str "suite") (.str hybridSuite)

/-- The text of a header's key ids that goes into the digest. -/
def headerKids (P : Primitives) (header : Bytes) : Py Str := do
  sortedJoin (← jsonGet (← P.jsonLoadsBytes header) (str "kids") (.arr []))

theorem headerAad_eq_ok {P : Primitives} {header : Bytes} {sender recipient : Str} {aad : Bytes} :
    headerAad P header sender recipient = .ok aad ↔
      ∃ su joined, headerSuite P header = .ok (.str su) ∧ headerKids P header = .ok joined ∧ Scalar joined ∧
        Scalar (parties su sender recipient) ∧ aad = aadBytes P (parties su sender recipient) joined := by
  simp only [headerAad, headerSuite, headerKids, bind_eq_ok, pqdm2Aad_eq_ok]
  constructor
  · rintro ⟨v, hv, kids, hkids, _, hsuite, su, joined, rfl, hjoined, hrest⟩
    exact ⟨su, joined, ⟨v, hv, hsuite⟩, ⟨v, hv, kids, hkids, hjoined⟩, hrest⟩
  · rintro ⟨su, joined, ⟨v, hv, hsuite⟩, ⟨v', hv', kids, hkids, hjoined⟩, hrest⟩
    obtain rfl : v = v' := Except.ok.inj (hv.symm.trans hv')
    exact ⟨v, hv, kids, hkids, .str su, hsuite, su, joined, rfl, hjoined, hrest⟩

/-! ### Recipients -/

/-- `r["key_id"]`, where it is a string. -/
def keyIdOf (r : Recipient) : Option Str :=
  match lookup (str "key_id") r with
  | some (.str keyId) => some keyId
  | _ => none

/-- `r["hybrid_public_hex"]` is the hex text of a public key. -/
def HasPublicKey (r : Recipient) (pub : BytesN publicKeyLen) : Prop :=
  ∃ text, lookup (str "hybrid_public_hex") r = some (.str text) ∧ fromHex text = some pub.val

theorem keyIdOf_eq_some {r : Recipient} {keyId : Str} :
    keyIdOf r = some keyId ↔ getItem (str "key_id") r = .ok (.str keyId) := by
  rw [getItem_eq_ok, keyIdOf]
  cases lookup (str "key_id") r with
  | none => simp
  | some v => cases v <;> simp

theorem HasPublicKey.unique {r : Recipient} {pub pub' : BytesN publicKeyLen} (h : HasPublicKey r pub)
    (h' : HasPublicKey r pub') : pub = pub' := by
  obtain ⟨text, htext, hpub⟩ := h
  obtain ⟨text', htext', hpub'⟩ := h'
  rw [htext] at htext'
  cases htext'
  exact BytesN.ext (Option.some.inj (hpub.symm.trans hpub'))

/-! ### Sealing -/

theorem sealSlot_eq_ok {P : Primitives} {coins : SealMultiCoins} {i : Nat} {r : Recipient} {b : Bytes} :
    sealSlot P coins i r = .ok b ↔
      ∃ (keyId : Str) (pub : BytesN publicKeyLen) (ct : BytesN ciphertextLen) (ss : BytesN 32) (wrapped : Bytes),
        keyIdOf r = some keyId ∧ Scalar keyId ∧ (utf8 keyId).length ≤ 255 ∧ HasPublicKey r pub ∧
        hybridEncap P (coins.encap i) (.bytes pub) hkdfInfo = .ok (ct, ss) ∧
        P.encrypt (pqdm2WrapKey P ss) coins.nonce coins.messageKey [] = .ok wrapped ∧
        b = [UInt8.ofNat (utf8 keyId).length] ++ utf8 keyId ++ ct ++ wrapped := by
  simp only [sealSlot, bind_eq_ok, guard_eq_ok, jsonEncode_eq_ok, tryExcept_raise_eq_ok, bytesFromhex_eq_ok,
    getItem_eq_ok, keyIdOf_eq_some, Prod.exists, Nat.not_lt, gt_iff_lt]
  constructor
  · rintro ⟨_, hkeyId, _, ⟨keyId, rfl, hscalar, rfl⟩, hlen, pub, ⟨_, htext, text, rfl, hpub⟩, ct, ss, hencap,
      wrapped, hwrapped, hret⟩
    cases hret
    obtain ⟨pub', hdata⟩ := data?_of_hybridEncap hencap
    obtain rfl : pub = pub'.val := Option.some.inj hdata
    exact ⟨keyId, pub', ct, ss, wrapped, hkeyId, hscalar, hlen, ⟨text, htext, hpub⟩, hencap, hwrapped, rfl⟩
  · rintro ⟨keyId, pub, ct, ss, wrapped, hkeyId, hscalar, hlen, ⟨text, htext, hpub⟩, hencap, hwrapped, rfl⟩
    exact ⟨_, hkeyId, _, ⟨keyId, rfl, hscalar, rfl⟩, hlen, pub.val, ⟨_, htext, text, rfl, hpub⟩, ct, ss, hencap,
      wrapped, hwrapped, rfl⟩

/-- An encapsulation that a run of `sealMulti` makes, to the public key of a recipient. -/
def Encapsulates (P : Primitives) (coins : SealMultiCoins) (recipients : List Recipient)
    (pub : BytesN publicKeyLen) (ct : BytesN ciphertextLen) (ss : BytesN 32) : Prop :=
  ∃ i r, recipients[i]? = some r ∧ HasPublicKey r pub ∧
    hybridEncap P (coins.encap i) (.bytes pub) hkdfInfo = .ok (ct, ss)

def SealedFor (P : Primitives) (coins : SealMultiCoins) (recipients : List Recipient) (r : Recipient)
    (slot : PackedSlot) : Prop :=
  keyIdOf r = some slot.keyId ∧ ∃ pub ss, HasPublicKey r pub ∧ Encapsulates P coins recipients pub slot.encap ss ∧
    P.encrypt (pqdm2WrapKey P ss) coins.nonce coins.messageKey [] = .ok slot.wrappedK.val

/-- From position `i` on, the region is the packed slots of the recipients there. -/
theorem exists_slots {P : Primitives} (haead : P.AeadCorrect) {coins : SealMultiCoins} {recipients : List Recipient}
    (rs : List Recipient) {i : Nat} {region : Bytes} (hrs : recipients.drop i = rs)
    (h : sealSlots P coins i rs = .ok region) :
    ∃ slots, region = slots.flatMap PackedSlot.pack ∧ List.Forall₂ (SealedFor P coins recipients) rs slots := by
  induction rs generalizing i region with
  | nil =>
    cases h
    exact ⟨[], rfl, .nil⟩
  | cons r rs ih =>
    simp only [sealSlots, bind_eq_ok] at h
    obtain ⟨slot, hslot, rest, hrest, hret⟩ := h
    cases hret
    obtain ⟨keyId, pub, ct, ss, wrapped, hkeyId, hscalar, hlen, hpub, hencap, hwrapped, rfl⟩ := sealSlot_eq_ok.mp hslot
    have hr : recipients[i]? = some r := by
      have hhead := congrArg List.head? hrs
      rwa [List.head?_drop, List.head?_cons] at hhead
    have htail : recipients.drop (i + 1) = rs := by
      rw [← List.drop_drop, hrs, List.drop_one, List.tail_cons]
    obtain ⟨slots, rfl, hslots⟩ := ih htail hrest
    have hwrappedLen : wrapped.length = pqdm2WrappedKLen := by
      rw [haead.length_encrypt _ _ _ _ _ hwrapped, BytesN.length_val]
    refine ⟨⟨keyId, hscalar, hlen, ct, ⟨wrapped, hwrappedLen⟩⟩ :: slots, ?_, .cons ?_ hslots⟩
    · rw [List.flatMap_cons, PackedSlot.pack]
    · exact ⟨hkeyId, pub, ss, hpub, ⟨i, r, hr, hpub, hencap⟩, hwrapped⟩

def Envelope.keyIds (e : Envelope) : List Str := e.slots.map PackedSlot.keyId

/-- The AAD of the body that `sealMulti` seals. -/
def sealedAad (P : Primitives) (sender recipientId : Str) (keyIds : List Str) : Py Bytes :=
  pqdm2Aad P (.str hybridSuite) sender recipientId (.arr (keyIds.map .str))

/-- The envelope that a run of `sealMulti` packs. -/
structure Seals (P : Primitives) (coins : SealMultiCoins) (body : Bytes) (recipients : List Recipient)
    (sender recipientId : Str) (e : Envelope) : Prop where
  header : e.header = utf8 (Json.dumps (pqdm2Header hybridSuite sender recipientId (e.keyIds.map .str)))
  slots : List.Forall₂ (SealedFor P coins recipients) recipients e.slots
  nonce : e.nonce = coins.nonce
  body : ∃ aad, sealedAad P sender recipientId e.keyIds = .ok aad ∧
    P.encrypt coins.messageKey coins.nonce body aad = .ok e.ct

theorem sealMulti_eq_ok {P : Primitives} {coins : SealMultiCoins} {body : Bytes} {recipients : List Recipient}
    {sender recipientId token : Str} :
    sealMulti P coins body recipients sender recipientId = .ok token ↔
      ∃ kids aad ct region headerJson, recipients ≠ [] ∧ recipients.mapM (getItem (str "key_id")) = .ok kids ∧
        pqdm2Aad P (.str hybridSuite) sender recipientId (.arr kids) = .ok aad ∧
        P.encrypt coins.messageKey coins.nonce body aad = .ok ct ∧ sealSlots P coins 0 recipients = .ok region ∧
        canonicalJson (pqdm2Header hybridSuite sender recipientId kids) = .ok headerJson ∧
        token = pqdm2Token headerJson region (coins.nonce ++ ct) := by
  cases recipients with
  | nil => simp [sealMulti, raise]
  | cons r rs =>
    simp only [sealMulti, bind_eq_ok, List.isEmpty_cons, Bool.false_eq_true, if_false]
    constructor
    · rintro ⟨kids, hkids, aad, haad, ct, hct, region, hregion, headerJson, hheader, hret⟩
      exact ⟨kids, aad, ct, region, headerJson, List.cons_ne_nil _ _, hkids, haad, hct, hregion, hheader,
        (Except.ok.inj hret).symm⟩
    · rintro ⟨kids, aad, ct, region, headerJson, -, hkids, haad, hct, hregion, hheader, rfl⟩
      exact ⟨kids, hkids, aad, haad, ct, hct, region, hregion, headerJson, hheader, rfl⟩

theorem kids_of_forall₂ {P : Primitives} {coins : SealMultiCoins} {recipients rs : List Recipient}
    {slots : List PackedSlot} (h : List.Forall₂ (SealedFor P coins recipients) rs slots) :
    rs.mapM (getItem (str "key_id")) = .ok ((slots.map PackedSlot.keyId).map .str) := by
  induction h with
  | nil => rfl
  | cons hslot _ ih =>
    rw [List.mapM_cons, keyIdOf_eq_some.mp hslot.1, ok_bind, ih]
    rfl

/-- Every token of `sealMulti` is the token of an envelope. -/
theorem exists_envelope {P : Primitives} (haead : P.AeadCorrect) {coins : SealMultiCoins} {body : Bytes}
    {recipients : List Recipient} {sender recipientId token : Str}
    (hseal : sealMulti P coins body recipients sender recipientId = .ok token) :
    ∃ e : Envelope, e.token = token ∧ Seals P coins body recipients sender recipientId e := by
  obtain ⟨kids, aad, ct, region, headerJson, -, hkids, haad, hct, hregion, hheader, rfl⟩ := sealMulti_eq_ok.mp hseal
  obtain ⟨slots, rfl, hslots⟩ := exists_slots haead recipients List.drop_zero hregion
  cases hkids.symm.trans (kids_of_forall₂ hslots)
  refine ⟨⟨headerJson, slots, coins.nonce, ct⟩, rfl, ?_, hslots, rfl, aad, haad, hct⟩
  exact (strEncode_eq_ok.mp hheader).2.symm

theorem seals_of_token {P : Primitives} (haead : P.AeadCorrect) {coins : SealMultiCoins} {body : Bytes}
    {recipients : List Recipient} {sender recipientId : Str} {e : Envelope}
    (hseal : sealMulti P coins body recipients sender recipientId = .ok e.token) :
    Seals P coins body recipients sender recipientId e := by
  obtain ⟨e', htoken, h⟩ := exists_envelope haead hseal
  rwa [Envelope.token_injective htoken] at h

/-! ### The sealed header -/

theorem scalar_of_sealedAad {P : Primitives} {sender recipientId : Str} {keyIds : List Str} {aad : Bytes}
    (h : sealedAad P sender recipientId keyIds = .ok aad) :
    Scalar (sortStrs keyIds).flatten ∧ Scalar (parties hybridSuite sender recipientId) ∧
      aad = aadBytes P (parties hybridSuite sender recipientId) (sortStrs keyIds).flatten := by
  obtain ⟨su, joined, hsu, hjoined, hscalar, hparties, rfl⟩ := pqdm2Aad_eq_ok.mp h
  cases hsu
  cases hjoined.symm.trans (sortedJoin_strs keyIds)
  exact ⟨hscalar, hparties, rfl⟩

theorem nodup_pqdm2Header {α : Type} (v suite sender recipient kids : α) :
    ([(str "v", v), (str "suite", suite), (str "sender", sender), (str "recipient", recipient),
      (str "kids", kids)].map Prod.fst).Nodup := by
  simp only [List.map_cons, List.map_nil]
  decide

theorem plain_pqdm2Header {suite sender recipient : Str} {keyIds : List Str}
    (h : Scalar (parties suite sender recipient)) (hkids : ∀ kid ∈ keyIds, Scalar kid) :
    Json.Plain (pqdm2Header suite sender recipient (keyIds.map .str)) := by
  obtain ⟨hsuite, hsender, hrecipient⟩ := scalar_parties.mp h
  refine ⟨nodup_pqdm2Header .., ?_⟩
  simp only [Json.PlainMembers, Json.Plain, and_true]
  exact ⟨scalar_of_isAscii (by decide), ⟨scalar_of_isAscii (by decide), hsuite⟩,
    ⟨scalar_of_isAscii (by decide), hsender⟩, ⟨scalar_of_isAscii (by decide), hrecipient⟩,
    scalar_of_isAscii (by decide), Json.plain_arr_strs hkids⟩

theorem headerAad_pqdm2Header {P : Primitives} {suite sender recipient sender' recipient' : Str} {keyIds : List Str}
    (h : Scalar (parties suite sender recipient)) (hkids : ∀ kid ∈ keyIds, Scalar kid) :
    headerAad P (utf8 (Json.dumps (pqdm2Header suite sender recipient (keyIds.map .str)))) sender' recipient'
      = pqdm2Aad P (.str suite) sender' recipient' (.arr (keyIds.map .str)) := by
  have hplain := plain_pqdm2Header h hkids
  have hloads : P.jsonLoadsBytes _ = .ok (Json.sortKeys _) :=
    Primitives.jsonLoadsBytes_eq_ok.mpr (Json.loadsBytes_dumps P.floatText hplain)
  have hget := jsonGet_sortKeys (nodup_pqdm2Header (.int pqdm2Version) (.str suite) (.str sender) (.str recipient)
    (.arr (keyIds.map .str)))
  have hkidsGet : jsonGet (pqdm2Header suite sender recipient (keyIds.map .str)).sortKeys (str "kids") (.arr [])
      = .ok (.arr (keyIds.map .str)) :=
    (hget (str "kids") (.arr [])).trans (congrArg Except.ok (Json.sortKeys_arr_strs keyIds))
  have hsuiteGet : jsonGet (pqdm2Header suite sender recipient (keyIds.map .str)).sortKeys (str "suite")
      (.str hybridSuite) = .ok (.str suite) := hget (str "suite") (.str hybridSuite)
  rw [headerAad, hloads, ok_bind, hkidsGet, ok_bind, hsuiteGet, ok_bind]

theorem Envelope.scalar_of_mem_keyIds {e : Envelope} {kid : Str} (h : kid ∈ e.keyIds) : Scalar kid := by
  obtain ⟨slot, -, rfl⟩ := List.mem_map.mp h
  exact slot.scalar

theorem Seals.headerAad_eq {P : Primitives} {coins : SealMultiCoins} {body : Bytes} {recipients : List Recipient}
    {sender recipientId : Str} {e : Envelope} (h : Seals P coins body recipients sender recipientId e) :
    headerAad P e.header sender recipientId = sealedAad P sender recipientId e.keyIds := by
  obtain ⟨aad, haad, -⟩ := h.body
  obtain ⟨-, hscalar, -⟩ := scalar_of_sealedAad haad
  rw [h.header, headerAad_pqdm2Header hscalar fun _ => Envelope.scalar_of_mem_keyIds, sealedAad]

end Pqdm
end SkPqc
