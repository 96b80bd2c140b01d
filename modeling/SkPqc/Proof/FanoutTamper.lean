import Mathlib.Data.Finset.Dedup
import SkPqc.Proof.Fanout

/-!
# The fanout envelope under edits

What the AAD of the body authenticates. An open rebuilds the AAD from the header of the token and the
parties of the call, and never looks at the slot region for it; so the three results below say exactly
which edits it notices. A changed slot region goes unnoticed under a header that still binds the sealed
key ids. The suite of the header and the two parties are joined by bars, and the key ids of the header are
joined by nothing, so neither join determines what was joined.
-/

namespace SkPqc
namespace Pqdm

open Wire Pqkem

/-! ### Headers that give the sealed AAD -/

/-- The header still names the hybrid suite and the text of the sealed key ids. -/
def HeaderBinds (P : Primitives) (header : Bytes) (keyIds : List Str) : Prop :=
  headerSuite P header = .ok (.str hybridSuite) ∧ headerKids P header = .ok (sortStrs keyIds).flatten

/-- The texts whose digests an open compares. -/
def KidTexts (P : Primitives) (header : Bytes) (keyIds : List Str) : Set Bytes :=
  { b | b = utf8 (sortStrs keyIds).flatten ∨ ∃ joined, headerKids P header = .ok joined ∧ b = utf8 joined }

theorem headerAad_eq_sealedAad_iff {P : Primitives} {header : Bytes} {sender recipientId sender' recipientId' : Str}
    {keyIds : List Str} {aad : Bytes} (haad : sealedAad P sender recipientId keyIds = .ok aad) :
    headerAad P header sender' recipientId' = sealedAad P sender recipientId keyIds ↔
      ∃ su joined, headerSuite P header = .ok (.str su) ∧ headerKids P header = .ok joined ∧ Scalar joined ∧
        parties su sender' recipientId' = parties hybridSuite sender recipientId ∧
        P.sha256 (utf8 joined) = P.sha256 (utf8 (sortStrs keyIds).flatten) := by
  obtain ⟨-, hscalar, rfl⟩ := scalar_of_sealedAad haad
  rw [haad, headerAad_eq_ok]
  constructor
  · rintro ⟨su, joined, hsuite, hkids, hjoined, hparties, heq⟩
    obtain ⟨hsame, hdigest⟩ := (aadBytes_inj hscalar hparties).mp heq
    exact ⟨su, joined, hsuite, hkids, hjoined, hsame.symm, hdigest.symm⟩
  · rintro ⟨su, joined, hsuite, hkids, hjoined, hsame, hdigest⟩
    rw [← hsame] at hscalar
    refine ⟨su, joined, hsuite, hkids, hjoined, hscalar, ?_⟩
    rw [← hsame, aadBytes, aadBytes, hdigest]

/-- With the sealed parties the header has to bind. -/
theorem headerAad_eq_sealedAad_iff_binds {P : Primitives} {header : Bytes} {sender recipientId : Str}
    {keyIds : List Str} {aad : Bytes} (haad : sealedAad P sender recipientId keyIds = .ok aad)
    (hsha : Set.InjOn P.sha256 (KidTexts P header keyIds)) :
    headerAad P header sender recipientId = sealedAad P sender recipientId keyIds ↔ HeaderBinds P header keyIds := by
  obtain ⟨hscalar, -, -⟩ := scalar_of_sealedAad haad
  rw [headerAad_eq_sealedAad_iff haad]
  constructor
  · rintro ⟨su, joined, hsuite, hkids, hjoined, hparties, hdigest⟩
    obtain rfl : su = hybridSuite := by
      simpa only [parties, List.append_cancel_right_eq] using hparties
    have htext : utf8 joined = utf8 (sortStrs keyIds).flatten := hsha (.inr ⟨joined, hkids, rfl⟩) (.inl rfl) hdigest
    rw [utf8_injective hjoined hscalar htext] at hkids
    exact ⟨hsuite, hkids⟩
  · rintro ⟨hsuite, hkids⟩
    exact ⟨hybridSuite, _, hsuite, hkids, hscalar, rfl, rfl⟩

/-- A header that names another suite and other parties with the same join, and keeps the key ids. -/
theorem headerAad_renamed {P : Primitives} {suite sender recipientId sender' recipientId' : Str} {keyIds : List Str}
    {aad : Bytes} (haad : sealedAad P sender recipientId keyIds = .ok aad) (hkids : ∀ kid ∈ keyIds, Scalar kid)
    (hsame : parties suite sender' recipientId' = parties hybridSuite sender recipientId) :
    headerAad P (utf8 (Json.dumps (pqdm2Header suite sender' recipientId' (keyIds.map .str)))) sender' recipientId'
      = sealedAad P sender recipientId keyIds := by
  obtain ⟨hjoined, hscalar, haadBytes⟩ := scalar_of_sealedAad haad
  rw [← hsame] at hscalar haadBytes
  rw [headerAad_pqdm2Header hscalar hkids, haad]
  exact pqdm2Aad_eq_ok.mpr ⟨suite, _, rfl, sortedJoin_strs _, hjoined, hscalar, haadBytes⟩

section Edits
variable {P : Primitives} {coins : SealMultiCoins} {body : Bytes} {recipients : List Recipient}
  {sender recipientId : Str} {e : Envelope}

/-! ### The slot set -/

/-- The set of key ids that a slot region carries. -/
def keyIdSet (slots : List PackedSlot) : Finset Str := (slots.map PackedSlot.keyId).toFinset

/-- Under distinct key ids a slot with a recipient's key id is the recipient's slot. -/
theorem Seals.sealedFor (h : Seals P coins body recipients sender recipientId e)
    (hdistinct : (recipients.map keyIdOf).Nodup) {r : Recipient} (hr : r ∈ recipients) {slot : PackedSlot}
    (hslot : slot ∈ e.slots) (hkeyId : keyIdOf r = some slot.keyId) : SealedFor P coins recipients r slot := by
  obtain ⟨r', hr', hsealed⟩ := h.exists_recipient hslot
  have hsame : keyIdOf r' = keyIdOf r := hsealed.1.trans hkeyId.symm
  rwa [List.inj_on_of_nodup_map hdistinct hr' hr hsame] at hsealed

/-- A device whose slot remains opens the edited token exactly when the header binds, whatever the slot
region carries besides. -/
theorem Seals.openMulti_remaining (h : Seals P coins body recipients sender recipientId e) (hkem : P.KemCorrect)
    (haead : P.AeadCorrect) (hsound : P.AeadSound (SealMultiMakes P coins body recipients sender recipientId))
    (hdistinct : (recipients.map keyIdOf).Nodup) {edited : List PackedSlot} (hedited : ∀ slot ∈ edited, slot ∈ e.slots)
    {header : Bytes} (hsha : Set.InjOn P.sha256 (KidTexts P header e.keyIds)) {r : Recipient} (hr : r ∈ recipients)
    {keyId : Str} (hkeyId : keyIdOf r = some keyId) (hremains : keyId ∈ keyIdSet edited)
    {pub : BytesN publicKeyLen} (hpub : HasPublicKey r pub) {priv : BytesN privateKeyLen} (hkey : IsKeypair P priv pub)
    {privateHex : Str} (hpriv : fromHex privateHex = some priv.val) {body' : Bytes} :
    openMulti P { e with header := header, slots := edited }.token keyId privateHex sender recipientId
      = .ok (some body') ↔ body' = body ∧ HeaderBinds P header e.keyIds := by
  have hedit : Edits e { e with header := header, slots := edited } := ⟨hedited, rfl, rfl⟩
  obtain ⟨aad, haad, -⟩ := h.body
  rw [openMulti_edit h haead hsound hedit, headerAad_eq_sealedAad_iff_binds haad hsha]
  obtain ⟨slot, hfind⟩ : ∃ slot, edited.find? (fun slot => slot.keyId = keyId) = some slot := by
    rw [← Option.isSome_iff_exists, List.find?_isSome]
    simpa [keyIdSet] using hremains
  have hslotKeyId : slot.keyId = keyId := by simpa using List.find?_some hfind
  have hslot := h.sealedFor hdistinct hr (hedited slot (List.mem_of_find?_eq_some hfind)) (hslotKeyId ▸ hkeyId)
  have hunlocks := h.unlocks hkem haead hedit hfind hslot hpub hkey
  constructor
  · rintro ⟨hbody, -, hbinds⟩
    exact ⟨hbody, hbinds⟩
  · rintro ⟨hbody, hbinds⟩
    exact ⟨hbody, ⟨priv.val, hpriv, hunlocks⟩, hbinds⟩

/-- An edit of the slot region that changes the set of key ids makes a remaining device's open fail exactly
when the header no longer binds the sealed set: the region itself is not authenticated. -/
theorem openMulti_slotSet_iff (hkem : P.KemCorrect) (haead : P.AeadCorrect)
    (hseal : sealMulti P coins body recipients sender recipientId = .ok e.token)
    (hsound : P.AeadSound (SealMultiMakes P coins body recipients sender recipientId))
    (hdistinct : (recipients.map keyIdOf).Nodup) {edited : List PackedSlot} (hedited : ∀ slot ∈ edited, slot ∈ e.slots)
    {header : Bytes} (hsha : Set.InjOn P.sha256 (KidTexts P header e.keyIds)) {r : Recipient} (hr : r ∈ recipients)
    {keyId : Str} (hkeyId : keyIdOf r = some keyId) (hremains : keyId ∈ keyIdSet edited)
    {pub : BytesN publicKeyLen} (hpub : HasPublicKey r pub) {priv : BytesN privateKeyLen} (hkey : IsKeypair P priv pub)
    {privateHex : Str} (hpriv : fromHex privateHex = some priv.val) :
    (keyIdSet edited ≠ keyIdSet e.slots →
        openMulti P { e with header := header, slots := edited }.token keyId privateHex sender recipientId = .ok none) ↔
      (keyIdSet edited = keyIdSet e.slots ∨ ¬HeaderBinds P header e.keyIds) := by
  have h := seals_of_token haead hseal
  have hopen : ∀ body', openMulti P { e with header := header, slots := edited }.token keyId privateHex sender
      recipientId = .ok (some body') ↔ body' = body ∧ HeaderBinds P header e.keyIds := fun _ =>
    h.openMulti_remaining hkem haead hsound hdistinct hedited hsha hr hkeyId hremains hpub hkey hpriv
  rw [openMulti_eq_none_iff hopen]
  constructor
  · intro hfails
    by_cases hset : keyIdSet edited = keyIdSet e.slots
    · exact .inl hset
    · exact .inr (hfails hset)
  · rintro (hsame | hnot) hset
    · exact absurd hsame hset
    · exact hnot

/-! ### The parties -/

/-- For two parties, no rewritten header opens the token exactly when no suite makes their join the sealed
one, or the recipients do not admit the device. -/
theorem openMulti_parties_iff (hkem : P.KemCorrect) (haead : P.AeadCorrect)
    (hseal : sealMulti P coins body recipients sender recipientId = .ok e.token)
    (hsound : P.AeadSound (SealMultiMakes P coins body recipients sender recipientId)) {myKeyId myPrivateHex : Str}
    (hexact : ExactFor P coins recipients myPrivateHex)
    (hhkdf : Set.InjOn P.hkdf (WrapInputs P coins recipients myPrivateHex)) {sender' recipientId' : Str} :
    (∀ header : Bytes,
        openMulti P { e with header := header }.token myKeyId myPrivateHex sender' recipientId' = .ok none) ↔
      ((¬∃ suite, parties suite sender' recipientId' = parties hybridSuite sender recipientId) ∨
        ¬Admits P recipients myKeyId myPrivateHex) := by
  have h := seals_of_token haead hseal
  have hopen : ∀ header body', openMulti P { e with header := header }.token myKeyId myPrivateHex sender'
      recipientId' = .ok (some body') ↔ body' = body ∧ Admits P recipients myKeyId myPrivateHex ∧
        headerAad P header sender' recipientId' = sealedAad P sender recipientId e.keyIds := fun _ _ =>
    h.openMulti_header hkem haead hsound hexact hhkdf
  obtain ⟨aad, haad, -⟩ := h.body
  simp only [openMulti_eq_none_iff (hopen _)]
  constructor
  · intro hfails
    by_cases hjoin : ∃ suite, parties suite sender' recipientId' = parties hybridSuite sender recipientId
    · obtain ⟨suite, hsame⟩ := hjoin
      -- the header that names this suite and keeps the key ids
      have hrenamed := headerAad_renamed haad (fun _ => e.scalar_of_mem_keyIds) hsame
      exact .inr fun hadmits => hfails _ ⟨hadmits, hrenamed⟩
    · exact .inl hjoin
  · rintro (hnot | hnot) header ⟨hadmits, hsame⟩
    · obtain ⟨suite, -, -, -, -, hparties, -⟩ := (headerAad_eq_sealedAad_iff haad).mp hsame
      exact hnot ⟨suite, hparties⟩
    · exact hnot hadmits

/-! ### The key ids of the header -/

/-- With other key ids in the header an open fails exactly when, sorted and joined, they are another text,
or the recipients do not admit the device. -/
theorem openMulti_kids_iff (hkem : P.KemCorrect) (haead : P.AeadCorrect)
    (hseal : sealMulti P coins body recipients sender recipientId = .ok e.token)
    (hsound : P.AeadSound (SealMultiMakes P coins body recipients sender recipientId)) {myKeyId myPrivateHex : Str}
    (hexact : ExactFor P coins recipients myPrivateHex)
    (hhkdf : Set.InjOn P.hkdf (WrapInputs P coins recipients myPrivateHex)) {header : Bytes}
    {members : List (Str × Json)} (hheader : Json.loadsBytes P.floatText header = some (.obj members))
    (hsuite : lookup (str "suite") members = some (.str hybridSuite)) {kids : List Str}
    (hkids : lookup (str "kids") members = some (.arr (kids.map .str)))
    (hsha : Set.InjOn P.sha256 {utf8 (sortStrs e.keyIds).flatten, utf8 (sortStrs kids).flatten}) :
    (¬kids.Perm e.keyIds →
        openMulti P { e with header := header }.token myKeyId myPrivateHex sender recipientId = .ok none) ↔
      (kids.Perm e.keyIds ∨ (sortStrs kids).flatten ≠ (sortStrs e.keyIds).flatten ∨
        ¬Admits P recipients myKeyId myPrivateHex) := by
  have h := seals_of_token haead hseal
  obtain ⟨aad, haad, -⟩ := h.body
  have hloads := Primitives.jsonLoadsBytes_eq_ok.mpr hheader
  have hheaderSuite : headerSuite P header = .ok (.str hybridSuite) := by
    rw [headerSuite, hloads, ok_bind, jsonGet, hsuite, Option.getD_some]
  have hheaderKids : headerKids P header = .ok (sortStrs kids).flatten := by
    rw [headerKids, hloads, ok_bind, jsonGet, hkids, Option.getD_some, ok_bind, sortedJoin_strs]
  have htexts : Set.InjOn P.sha256 (KidTexts P header e.keyIds) := by
    refine hsha.mono ?_
    rintro b (rfl | ⟨joined, hjoined, rfl⟩)
    · exact .inl rfl
    · cases hheaderKids.symm.trans hjoined
      exact .inr rfl
  have hbinds : HeaderBinds P header e.keyIds ↔ (sortStrs kids).flatten = (sortStrs e.keyIds).flatten := by
    simp only [HeaderBinds, hheaderSuite, hheaderKids, true_and, Except.ok.injEq]
  have hopen : ∀ body', openMulti P { e with header := header }.token myKeyId myPrivateHex sender recipientId
      = .ok (some body') ↔ body' = body ∧ Admits P recipients myKeyId myPrivateHex ∧
        (sortStrs kids).flatten = (sortStrs e.keyIds).flatten := by
    intro body'
    rw [h.openMulti_header hkem haead hsound hexact hhkdf, headerAad_eq_sealedAad_iff_binds haad htexts, hbinds]
  rw [openMulti_eq_none_iff hopen]
  constructor
  · intro hfails
    by_cases hperm : kids.Perm e.keyIds
    · exact .inl hperm
    by_cases hjoined : (sortStrs kids).flatten = (sortStrs e.keyIds).flatten
    · exact .inr (.inr fun hadmits => hfails hperm ⟨hadmits, hjoined⟩)
    · exact .inr (.inl hjoined)
  · rintro (hsame | hne | hnot) hperm ⟨hadmits, hjoined⟩
    · exact hperm hsame
    · exact hne hjoined
    · exact hnot hadmits

end Edits

/-! ### Runs -/

namespace FanoutExample

open StandIn (aliceCoins)

variable {k₁ k₂ sender recipientId : Str} {body : Bytes} {e : Envelope}

theorem exists_sealed (h₁ : IsName k₁) (h₂ : IsName k₂) (hsender : Scalar sender) (hrecipientId : Scalar recipientId)
    (body : Bytes) : ∃ e : Envelope,
      sealMulti (P k₁ k₂ sender recipientId) coins body (recipients k₁ k₂) sender recipientId = .ok e.token := by
  obtain ⟨token, htoken⟩ := exists_token h₁ h₂ hsender hrecipientId body
  obtain ⟨e, rfl, -⟩ := exists_envelope (StandIn.aeadCorrect _ _) htoken
  exact ⟨e, htoken⟩

theorem seals (h : sealMulti (P k₁ k₂ sender recipientId) coins body (recipients k₁ k₂) sender recipientId
    = .ok e.token) : Seals (P k₁ k₂ sender recipientId) coins body (recipients k₁ k₂) sender recipientId e :=
  seals_of_token (StandIn.aeadCorrect _ _) h

theorem exists_slots (h : Seals (P k₁ k₂ sender recipientId) coins body (recipients k₁ k₂) sender recipientId e) :
    ∃ slot rest, e.slots = slot :: rest ∧
      SealedFor (P k₁ k₂ sender recipientId) coins (recipients k₁ k₂) (recipient k₁ alice) slot := by
  obtain ⟨slot, rest, hslot, -, hslots⟩ := List.forall₂_cons_left_iff.mp h.slots
  exact ⟨slot, rest, hslots, hslot⟩

theorem map_keyId_eq {slots : List PackedSlot} (h : List.Forall₂
    (SealedFor (P k₁ k₂ sender recipientId) coins (recipients k₁ k₂)) (recipients k₁ k₂) slots) :
    slots.map PackedSlot.keyId = [k₁, k₂] := by
  have hkids : (recipients k₁ k₂).mapM (getItem (str "key_id")) = .ok ([k₁, k₂].map .str) := rfl
  have hsame := Except.ok.inj ((kids_of_forall₂ h).symm.trans hkids)
  exact List.map_injective_iff.mpr (fun _ _ => Json.str.inj) hsame

theorem keyIds_eq (h : Seals (P k₁ k₂ sender recipientId) coins body (recipients k₁ k₂) sender recipientId e) :
    e.keyIds = [k₁, k₂] := map_keyId_eq h.slots

theorem keyIdSet_take (h : Seals (P k₁ k₂ sender recipientId) coins body (recipients k₁ k₂) sender recipientId e) :
    keyIdSet (e.slots.take 1) = {k₁} := by
  rw [keyIdSet, List.map_take, ← Envelope.keyIds, keyIds_eq h]
  rfl

theorem isName_phone : IsName (str "phone") := by decide

theorem isName_laptop : IsName (str "laptop") := by decide

abbrev P₂ : Primitives := P (str "phone") (str "laptop") (str "carol") (str "team")

abbrev distinct : List Recipient := recipients (str "phone") (str "laptop")

theorem exists_distinct : ∃ e : Envelope,
    sealMulti P₂ coins (ascii "hi") distinct (str "carol") (str "team") = .ok e.token := by
  have hcarol : Scalar (str "carol") := scalar_of_isAscii (by decide)
  have hteam : Scalar (str "team") := scalar_of_isAscii (by decide)
  exact exists_sealed isName_phone isName_laptop hcarol hteam (ascii "hi")

theorem keyIdSet_take_ne (h : Seals P₂ coins (ascii "hi") distinct (str "carol") (str "team") e) :
    keyIdSet (e.slots.take 1) ≠ keyIdSet e.slots := by
  rw [keyIdSet_take h, keyIdSet, ← Envelope.keyIds, keyIds_eq h]
  decide

/-- Bob's slot stripped and the header left as it was: alice opens the token. -/
theorem exists_stripped_open : ∃ e : Envelope,
    sealMulti P₂ coins (ascii "hi") distinct (str "carol") (str "team") = .ok e.token ∧
      keyIdSet (e.slots.take 1) ≠ keyIdSet e.slots ∧ str "phone" ∈ keyIdSet (e.slots.take 1) ∧
      openMulti P₂ { e with slots := e.slots.take 1 }.token (str "phone") (hex alice.privateKey) (str "carol")
        (str "team") = .ok (some (ascii "hi")) := by
  obtain ⟨e, hseal⟩ := exists_distinct
  have h := seals hseal
  have hedit : Edits e { e with slots := e.slots.take 1 } := ⟨fun _ => List.mem_of_mem_take, rfl, rfl⟩
  obtain ⟨slot, rest, hslots, hsealed⟩ := exists_slots h
  have hfind : (e.slots.take 1).find? (fun slot => slot.keyId = str "phone") = some slot := by
    rw [hslots]
    exact List.find?_cons_of_pos (by simpa using (Option.some.inj hsealed.1).symm)
  have hunlocks := h.unlocks (StandIn.kemCorrect _) (StandIn.aeadCorrect _ _) hedit hfind hsealed
    (hasPublicKey_recipient _ alice) (StandIn.isKeypair _ _ aliceCoins)
  refine ⟨e, hseal, keyIdSet_take_ne h, ?_, (openMulti_edit h (StandIn.aeadCorrect _ _) (aeadSound _ _ _ _) hedit).mpr
    ⟨rfl, ⟨_, fromHex_hex _, hunlocks⟩, h.headerAad_eq⟩⟩
  rw [keyIdSet_take h]
  exact Finset.mem_singleton_self _

def emptyHeader : Bytes := utf8 (Json.dumps (.obj []))

theorem loadsBytes_emptyHeader (P : Primitives) : Json.loadsBytes P.floatText emptyHeader = some (.obj []) :=
  Json.loadsBytes_dumps P.floatText ⟨List.nodup_nil, trivial⟩

theorem headerKids_emptyHeader (P : Primitives) : headerKids P emptyHeader = .ok [] := by
  rw [headerKids, Primitives.jsonLoadsBytes_eq_ok.mpr (loadsBytes_emptyHeader P)]
  rfl

/-- Bob's slot stripped and the key ids taken out of the header: alice's open fails. -/
theorem openMulti_slotSet_run : ∃ e : Envelope,
    sealMulti P₂ coins (ascii "hi") distinct (str "carol") (str "team") = .ok e.token ∧
      openMulti P₂ { e with header := emptyHeader, slots := e.slots.take 1 }.token (str "phone") (hex alice.privateKey)
        (str "carol") (str "team") = .ok none := by
  obtain ⟨e, hseal⟩ := exists_distinct
  have h := seals hseal
  have hmem : str "phone" ∈ keyIdSet (e.slots.take 1) := by
    rw [keyIdSet_take h]
    exact Finset.mem_singleton_self _
  have hsha : Set.InjOn P₂.sha256 (KidTexts P₂ emptyHeader e.keyIds) := by
    have hdigests : P₂.sha256 (utf8 (sortStrs [str "phone", str "laptop"]).flatten) ≠ P₂.sha256 (utf8 []) := by
      decide
    refine (Set.injOn_pair.mpr fun heq => absurd heq hdigests).mono ?_
    rintro b (rfl | ⟨joined, hjoined, rfl⟩)
    · exact .inl (by rw [keyIds_eq h])
    · cases (headerKids_emptyHeader _).symm.trans hjoined
      exact .inr rfl
  refine ⟨e, hseal, (openMulti_slotSet_iff (StandIn.kemCorrect _) (StandIn.aeadCorrect _ _) hseal (aeadSound _ _ _ _)
    ?_ (fun _ => List.mem_of_mem_take) hsha List.mem_cons_self rfl hmem (hasPublicKey_recipient _ alice)
    (StandIn.isKeypair _ _ aliceCoins) (fromHex_hex _)).mpr (.inr ?_) (keyIdSet_take_ne h)⟩
  · simp only [recipients, List.map_cons, List.map_nil, keyIdOf_recipient]
    decide
  · rintro ⟨-, hkids⟩
    rw [headerKids_emptyHeader, keyIds_eq h] at hkids
    exact absurd (Except.ok.inj hkids) (by decide)

/-! A sender with a bar in its name. -/

abbrev P₃ : Primitives := P (str "phone") (str "laptop") (str "a|b") (str "c")

theorem exists_barred : ∃ e : Envelope,
    sealMulti P₃ coins (ascii "hi") distinct (str "a|b") (str "c") = .ok e.token := by
  have hsender : Scalar (str "a|b") := scalar_of_isAscii (by decide)
  have hrecipient : Scalar (str "c") := scalar_of_isAscii (by decide)
  exact exists_sealed isName_phone isName_laptop hsender hrecipient (ascii "hi")

/-- With the first half of the sender moved into the suite, alice opens the token as one from `b`. -/
theorem exists_renamed_open : ∃ (e : Envelope) (header : Bytes),
    sealMulti P₃ coins (ascii "hi") distinct (str "a|b") (str "c") = .ok e.token ∧
      (str "b", str "c") ≠ (str "a|b", str "c") ∧ recipient (str "phone") alice ∈ distinct ∧
      openMulti P₃ { e with header := header }.token (str "phone") (hex alice.privateKey) (str "b") (str "c")
        = .ok (some (ascii "hi")) := by
  obtain ⟨e, hseal⟩ := exists_barred
  have h := seals hseal
  obtain ⟨aad, haad, -⟩ := h.body
  have hsame : parties (hybridSuite ++ str "|a") (str "b") (str "c") = parties hybridSuite (str "a|b") (str "c") := by
    decide
  have hheader := headerAad_renamed haad (fun _ => e.scalar_of_mem_keyIds) hsame
  exact ⟨e, _, hseal, by decide, List.mem_cons_self, (h.openMulti_header (StandIn.kemCorrect _)
    (StandIn.aeadCorrect _ _) (aeadSound _ _ _ _) (exactFor (.inl rfl)) (injOn_hkdf _)).mpr
    ⟨rfl, admits_alice, hheader⟩⟩

theorem openMulti_parties_run : ∃ e : Envelope,
    sealMulti P₃ coins (ascii "hi") distinct (str "a|b") (str "c") = .ok e.token ∧ ∀ header : Bytes,
      openMulti P₃ { e with header := header }.token (str "phone") (hex alice.privateKey) (str "b") (str "d")
        = .ok none := by
  obtain ⟨e, hseal⟩ := exists_barred
  refine ⟨e, hseal, (openMulti_parties_iff (StandIn.kemCorrect _) (StandIn.aeadCorrect _ _) hseal (aeadSound _ _ _ _)
    (exactFor (.inl rfl)) (injOn_hkdf _)).mpr (.inl ?_)⟩
  rintro ⟨suite, hsame⟩
  have hlast := congrArg List.getLast? hsame
  rw [parties, parties, List.getLast?_append, List.getLast?_append] at hlast
  have hchar : some (chr 'd') = some (chr 'c') := hlast
  exact absurd hchar (by decide)

/-! Key ids whose joins meet. -/

abbrev P₄ : Primitives := P (str "ab") (str "c") (str "carol") (str "team")

abbrev meeting : List Recipient := recipients (str "ab") (str "c")

def kidsHeader (kids : List Str) : Json := pqdm2Header hybridSuite (str "carol") (str "team") (kids.map .str)

theorem exists_meeting : ∃ e : Envelope,
    sealMulti P₄ coins (ascii "hi") meeting (str "carol") (str "team") = .ok e.token := by
  have hab : IsName (str "ab") := by decide
  have hc : IsName (str "c") := by decide
  have hcarol : Scalar (str "carol") := scalar_of_isAscii (by decide)
  have hteam : Scalar (str "team") := scalar_of_isAscii (by decide)
  exact exists_sealed hab hc hcarol hteam (ascii "hi")

theorem scalar_carol_team : Scalar (parties hybridSuite (str "carol") (str "team")) := scalar_of_isAscii (by decide)

/-- With `a` and `bc` for `ab` and `c` in the header, alice opens the token. -/
theorem exists_regrouped_open : ∃ e : Envelope,
    sealMulti P₄ coins (ascii "hi") meeting (str "carol") (str "team") = .ok e.token ∧
      ¬[str "a", str "bc"].Perm e.keyIds ∧ recipient (str "ab") alice ∈ meeting ∧
      openMulti P₄ { e with header := utf8 (Json.dumps (kidsHeader [str "a", str "bc"])) }.token (str "ab")
        (hex alice.privateKey) (str "carol") (str "team") = .ok (some (ascii "hi")) := by
  obtain ⟨e, hseal⟩ := exists_meeting
  have h := seals hseal
  have hkids : ∀ kid ∈ [str "a", str "bc"], Scalar kid := by
    simp only [List.mem_cons, List.not_mem_nil, or_false]
    rintro kid (rfl | rfl) <;> exact scalar_of_isAscii (by decide)
  have hsame : (sortStrs [str "a", str "bc"]).flatten = (sortStrs e.keyIds).flatten := by
    rw [keyIds_eq h]
    decide
  have hheader : headerAad P₄ (utf8 (Json.dumps (kidsHeader [str "a", str "bc"]))) (str "carol") (str "team")
      = sealedAad P₄ (str "carol") (str "team") e.keyIds := by
    rw [kidsHeader, headerAad_pqdm2Header scalar_carol_team hkids, sealedAad, pqdm2Aad, pqdm2Aad, sortedJoin_strs,
      sortedJoin_strs, hsame]
  refine ⟨e, hseal, ?_, List.mem_cons_self, (h.openMulti_header (StandIn.kemCorrect _) (StandIn.aeadCorrect _ _)
    (aeadSound _ _ _ _) (exactFor (.inl rfl)) (injOn_hkdf _)).mpr ⟨rfl, admits_alice, hheader⟩⟩
  rw [keyIds_eq h]
  decide

theorem openMulti_kids_run : ∃ e : Envelope,
    sealMulti P₄ coins (ascii "hi") meeting (str "carol") (str "team") = .ok e.token ∧
      openMulti P₄ { e with header := utf8 (Json.dumps (kidsHeader [str "x"])) }.token (str "ab")
        (hex alice.privateKey) (str "carol") (str "team") = .ok none := by
  obtain ⟨e, hseal⟩ := exists_meeting
  have h := seals hseal
  have hkids : ∀ kid ∈ [str "x"], Scalar kid := by
    simp only [List.mem_singleton]
    rintro kid rfl
    exact scalar_of_isAscii (by decide)
  have hget := Json.lookup_sortMembers (nodup_pqdm2Header (Json.int pqdm2Version) (.str hybridSuite)
    (.str (str "carol")) (.str (str "team")) (.arr ([str "x"].map .str)))
  have hdigests : P₄.sha256 (utf8 (sortStrs [str "ab", str "c"]).flatten)
      ≠ P₄.sha256 (utf8 (sortStrs [str "x"]).flatten) := by
    decide
  refine ⟨e, hseal, (openMulti_kids_iff (StandIn.kemCorrect _) (StandIn.aeadCorrect _ _) hseal (aeadSound _ _ _ _)
    (exactFor (.inl rfl)) (injOn_hkdf _)
    (Json.loadsBytes_dumps P₄.floatText (plain_pqdm2Header scalar_carol_team hkids)) (hget (str "suite"))
    ((hget (str "kids")).trans (congrArg some (Json.sortKeys_arr_strs [str "x"]))) ?_).mpr (.inr (.inl ?_)) ?_⟩
  · rw [keyIds_eq h]
    exact Set.injOn_pair.mpr fun heq => absurd heq hdigests
  · rw [keyIds_eq h]
    decide
  · rw [keyIds_eq h]
    decide

end FanoutExample

end Pqdm
end SkPqc
