import Mathlib.Data.List.Find
import SkPqc.Proof.FanoutTamper

/-!
# The order of slots and key ids

Neither order means anything. The AAD takes the key ids of the header sorted (`pqdm2Aad_perm`), and under
distinct key ids the search for a slot finds the same one in every order of the region
(`find?_views_of_perm`). So a token with its slots in one order and the key ids of its header in another opens
as the sealed token does, for every device and all parties (`Seals.openMulti_order`).
-/

namespace SkPqc
namespace Pqdm

open Wire Pqkem

/-- The header is an object that names the hybrid suite and lists these key ids. -/
def HeaderLists (P : Primitives) (header : Bytes) (kids : List Str) : Prop :=
  ∃ members, Json.loadsBytes P.floatText header = some (.obj members) ∧
    lookup (str "suite") members = some (.str hybridSuite) ∧ lookup (str "kids") members = some (.arr (kids.map .str))

/-- The device is one of the recipients: its key id and the public key of its private key are listed together. -/
def IsRecipient (P : Primitives) (recipients : List Recipient) (myKeyId myPrivateHex : Str) : Prop :=
  ∃ r ∈ recipients, ∃ pub, ∃ priv : BytesN privateKeyLen, keyIdOf r = some myKeyId ∧ HasPublicKey r pub ∧
    fromHex myPrivateHex = some priv.val ∧ IsKeypair P priv pub

/-- Under distinct key ids the first recipient with a key id is the only one. -/
theorem admits_iff_isRecipient {P : Primitives} {recipients : List Recipient}
    (hdistinct : (recipients.map keyIdOf).Nodup) {myKeyId myPrivateHex : Str} :
    Admits P recipients myKeyId myPrivateHex ↔ IsRecipient P recipients myKeyId myPrivateHex := by
  constructor
  · rintro ⟨r, pub, priv, hfind, hrest⟩
    have hkid : keyIdOf r = some myKeyId := by simpa using List.find?_some hfind
    exact ⟨r, List.mem_of_find?_eq_some hfind, pub, priv, hkid, hrest⟩
  · rintro ⟨r, hr, pub, priv, hkid, hrest⟩
    obtain ⟨first, hfind⟩ : ∃ first, recipients.find? (fun r => keyIdOf r = some myKeyId) = some first := by
      rw [← Option.isSome_iff_exists, List.find?_isSome]
      exact ⟨r, hr, by simp [hkid]⟩
    have hfirst : keyIdOf first = some myKeyId := by simpa using List.find?_some hfind
    rw [List.inj_on_of_nodup_map hdistinct (List.mem_of_find?_eq_some hfind) hr (hfirst.trans hkid.symm)] at hfind
    exact ⟨r, pub, priv, hfind, hrest⟩

/-! ### The header -/

theorem pqdm2Aad_perm {P : Primitives} {kids kids' : List Str} (h : kids.Perm kids') (suite : Json)
    (sender recipient : Str) :
    pqdm2Aad P suite sender recipient (.arr (kids.map .str))
      = pqdm2Aad P suite sender recipient (.arr (kids'.map .str)) := by
  rw [pqdm2Aad, pqdm2Aad, sortedJoin_strs, sortedJoin_strs, sortStrs_eq_of_perm h]

theorem HeaderLists.headerAad_eq {P : Primitives} {header : Bytes} {kids : List Str} (h : HeaderLists P header kids)
    (sender recipient : Str) :
    headerAad P header sender recipient = pqdm2Aad P (.str hybridSuite) sender recipient (.arr (kids.map .str)) := by
  obtain ⟨members, hheader, hsuite, hkids⟩ := h
  rw [headerAad, Primitives.jsonLoadsBytes_eq_ok.mpr hheader, ok_bind, jsonGet, hkids, Option.getD_some, ok_bind,
    jsonGet, hsuite, Option.getD_some, ok_bind]

theorem headerLists_pqdm2Header (P : Primitives) {sender recipient : Str} {kids : List Str}
    (h : Scalar (parties hybridSuite sender recipient)) (hkids : ∀ kid ∈ kids, Scalar kid) :
    HeaderLists P (utf8 (Json.dumps (pqdm2Header hybridSuite sender recipient (kids.map .str)))) kids := by
  have hget := Json.lookup_sortMembers (nodup_pqdm2Header (Json.int pqdm2Version) (.str hybridSuite) (.str sender)
    (.str recipient) (.arr (kids.map .str)))
  exact ⟨_, Json.loadsBytes_dumps P.floatText (plain_pqdm2Header h hkids), hget (str "suite"),
    (hget (str "kids")).trans (congrArg some (Json.sortKeys_arr_strs kids))⟩

/-! ### The slot region -/

theorem map_keyIdOf_of_forall₂ {P : Primitives} {coins : SealMultiCoins} {recipients rs : List Recipient}
    {slots : List PackedSlot} (h : List.Forall₂ (SealedFor P coins recipients) rs slots) :
    rs.map keyIdOf = (slots.map PackedSlot.keyId).map some := by
  induction h with
  | nil => rfl
  | cons hslot _ ih => rw [List.map_cons, hslot.1, ih, List.map_cons, List.map_cons]

/-- Under distinct key ids a device finds the same slot in every order. -/
theorem find?_views_of_perm {slots slots' : List PackedSlot} (h : slots.Perm slots')
    (hdistinct : (slots.map PackedSlot.keyId).Nodup) (myKeyId : Str) :
    (slots.map PackedSlot.view).find? (fun slot => slot.keyId = myKeyId)
      = (slots'.map PackedSlot.view).find? fun slot => slot.keyId = myKeyId := by
  rw [find?_map_view, find?_map_view, List.find?_eq_find?_of_perm h]
  rintro s ⟨hs, hkid⟩ t ⟨ht, hkid'⟩
  have hsame : s.keyId = t.keyId := (of_decide_eq_true hkid).trans (of_decide_eq_true hkid').symm
  exact List.inj_on_of_nodup_map hdistinct hs ht hsame

section Order
variable {P : Primitives} {coins : SealMultiCoins} {body : Bytes} {recipients : List Recipient}
  {sender recipientId : Str} {e : Envelope}

/-- In any two orders the token opens as it did. -/
theorem Seals.openMulti_order (h : Seals P coins body recipients sender recipientId e)
    (hdistinct : (recipients.map keyIdOf).Nodup) {slots : List PackedSlot} (hslots : slots.Perm e.slots)
    {header : Bytes} {kids : List Str} (hheader : HeaderLists P header kids) (hkids : kids.Perm e.keyIds)
    (myKeyId myPrivateHex sender' recipientId' : Str) :
    openMulti P { e with header := header, slots := slots }.token myKeyId myPrivateHex sender' recipientId'
      = openMulti P e.token myKeyId myPrivateHex sender' recipientId' := by
  have hnodup : (slots.map PackedSlot.keyId).Nodup := by
    rw [map_keyIdOf_of_forall₂ h.slots] at hdistinct
    exact (hslots.map PackedSlot.keyId).nodup_iff.mpr hdistinct.of_map
  refine openMulti_congr (carries_pqdm2Token _ _ _) (carries_pqdm2Token _ _ _) ?_ ?_
  · obtain ⟨aad, haad, -⟩ := h.body
    obtain ⟨-, hscalar, -⟩ := scalar_of_sealedAad haad
    rw [hheader.headerAad_eq, h.header, headerAad_pqdm2Header hscalar fun _ => Envelope.scalar_of_mem_keyIds]
    exact pqdm2Aad_perm hkids _ _ _
  · rw [PackedSlot.pqdm2IterSlots_flatMap, PackedSlot.pqdm2IterSlots_flatMap]
    exact find?_views_of_perm hslots hnodup myKeyId

/-- A device whose key id no slot carries gets nothing. -/
theorem openMulti_unlisted (P : Primitives) {e : Envelope} {myKeyId : Str} (h : myKeyId ∉ e.keyIds)
    (myPrivateHex sender recipientId : Str) :
    openMulti P e.token myKeyId myPrivateHex sender recipientId = .ok none := by
  obtain ⟨o, ho⟩ := openMulti_returns P e.token myKeyId myPrivateHex sender recipientId
  cases o with
  | none => exact ho
  | some body =>
    obtain ⟨_, _, _, -, -, ⟨slot, _, hfind, -⟩, -⟩ := (openMulti_token ..).mp ho
    have hkid : slot.keyId = myKeyId := by simpa using List.find?_some hfind
    exact absurd (List.mem_map.mpr ⟨slot, List.mem_of_find?_eq_some hfind, hkid⟩) h

/-- With the slots in any order and the key ids of the header in any other, a token opens as the sealed one: to
the body for its recipients, and to `None` for everyone else. -/
theorem openMulti_reordered (hkem : P.KemCorrect) (haead : P.AeadCorrect)
    (hseal : sealMulti P coins body recipients sender recipientId = .ok e.token)
    (hdistinct : (recipients.map keyIdOf).Nodup) {slots : List PackedSlot} (hslots : slots.Perm e.slots)
    {header : Bytes} {kids : List Str} (hheader : HeaderLists P header kids) (hkids : kids.Perm e.keyIds) :
    (∀ myKeyId myPrivateHex sender' recipientId',
        openMulti P { e with header := header, slots := slots }.token myKeyId myPrivateHex sender' recipientId'
          = openMulti P e.token myKeyId myPrivateHex sender' recipientId') ∧
      (∀ myKeyId myPrivateHex, IsRecipient P recipients myKeyId myPrivateHex →
        openMulti P { e with header := header, slots := slots }.token myKeyId myPrivateHex sender recipientId
          = .ok (some body)) ∧
      (∀ myKeyId myPrivateHex, some myKeyId ∉ recipients.map keyIdOf →
        openMulti P { e with header := header, slots := slots }.token myKeyId myPrivateHex sender recipientId
          = .ok none) ∧
      (P.AeadSound (SealMultiMakes P coins body recipients sender recipientId) →
        ∀ myKeyId myPrivateHex, ExactFor P coins recipients myPrivateHex →
          Set.InjOn P.hkdf (WrapInputs P coins recipients myPrivateHex) →
          ¬IsRecipient P recipients myKeyId myPrivateHex →
          openMulti P { e with header := header, slots := slots }.token myKeyId myPrivateHex sender recipientId
            = .ok none) := by
  have h := seals_of_token haead hseal
  have hsame := h.openMulti_order hdistinct hslots hheader hkids
  refine ⟨hsame, ?_, ?_, ?_⟩
  · intro myKeyId myPrivateHex hmem
    rw [hsame]
    exact h.openMulti_admits hkem haead ((admits_iff_isRecipient hdistinct).mpr hmem)
  · intro myKeyId myPrivateHex hnot
    rw [hsame]
    apply openMulti_unlisted
    rw [map_keyIdOf_of_forall₂ h.slots] at hnot
    intro hkid
    exact hnot (List.mem_map_of_mem hkid)
  · intro hsound myKeyId myPrivateHex hexact hhkdf hnot
    rw [hsame]
    have hopen : ∀ body', openMulti P e.token myKeyId myPrivateHex sender recipientId = .ok (some body') ↔
        body' = body ∧ Admits P recipients myKeyId myPrivateHex ∧ _ := fun _ =>
      h.openMulti_header hkem haead hsound hexact hhkdf
    rw [openMulti_eq_none_iff hopen]
    intro hcond
    exact hnot ((admits_iff_isRecipient hdistinct).mp hcond.1)

end Order

/-! ### Runs -/

namespace FanoutExample

open StandIn (aliceCoins)

theorem nodup_distinct : (distinct.map keyIdOf).Nodup := by
  simp only [recipients, List.map_cons, List.map_nil, keyIdOf_recipient]
  decide

/-- Both orders turned around: alice opens the token. -/
theorem openMulti_reordered_run : ∃ (e : Envelope) (header : Bytes),
    sealMulti P₂ coins (ascii "hi") distinct (str "carol") (str "team") = .ok e.token ∧
      HeaderLists P₂ header [str "laptop", str "phone"] ∧ [str "laptop", str "phone"] ≠ e.keyIds ∧
      openMulti P₂ { e with header := header, slots := e.slots.reverse }.token (str "phone") (hex alice.privateKey)
        (str "carol") (str "team") = .ok (some (ascii "hi")) := by
  obtain ⟨e, hseal⟩ := exists_distinct
  have hkeyIds := keyIds_eq (seals hseal)
  have hkids : [str "laptop", str "phone"].Perm e.keyIds := by
    rw [hkeyIds]
    exact .swap ..
  have hscalar : ∀ kid ∈ [str "laptop", str "phone"], Scalar kid := fun _ hkid =>
    Envelope.scalar_of_mem_keyIds (hkids.mem_iff.mp hkid)
  have hheader := headerLists_pqdm2Header P₂ scalar_carol_team hscalar
  refine ⟨e, _, hseal, hheader, ?_, (openMulti_reordered (StandIn.kemCorrect _) (StandIn.aeadCorrect _ _) hseal
    nodup_distinct (List.reverse_perm _) hheader hkids).2.1 _ _ ?_⟩
  · rw [hkeyIds]
    decide
  · exact ⟨_, List.mem_cons_self, alice.publicKey, alice.privateKey, rfl, hasPublicKey_recipient _ _, fromHex_hex _,
      StandIn.isKeypair _ _ aliceCoins⟩

end FanoutExample

end Pqdm
end SkPqc
