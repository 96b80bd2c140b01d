import SkPqc.Proof.EpochWrap
import SkPqc.Proof.SlotRegion

/-!
# What the devices of a fanout agree on

A fanout token has one body region and a slot for each device, and a device knows no slot but its own. So a token
made with ill intent may wrap two keys. Whether its devices can then read two bodies is a question about AES-GCM
alone: it is whether one ciphertext opens under two keys.
-/

namespace SkPqc

open Wire Pqkem

/-- Under the AADs, a nonce and a ciphertext fix the data, whatever the key. -/
def Primitives.AeadCommits (P : Primitives) (aads : Bytes → Prop) : Prop :=
  ∀ (nonce : BytesN 12) (ct aad : Bytes) (K K' : BytesN 32) (data data' : Bytes), aads aad →
    P.decrypt K nonce ct aad = .ok data → P.decrypt K' nonce ct aad = .ok data' → data = data'

namespace Pqdm

section Agreement
variable {P : Primitives} {token sender recipientId : Str}

/-- The AADs that the header of a token can give. -/
def HeaderGives (P : Primitives) (sender recipientId : Str) (aad : Bytes) : Prop :=
  ∃ header, headerAad P header sender recipientId = .ok aad

/-- An open that returns has opened the body region, under the nonce that begins it, with a key of 32 bytes. -/
theorem exists_decrypt_of_openMulti (htag : P.DecryptDropsTag) {myKeyId myPrivateHex : Str}
    {header slots blob body : Bytes} (hcarries : Carries token header slots blob)
    (h : openMulti P token myKeyId myPrivateHex sender recipientId = .ok (some body)) :
    ∃ aad, headerAad P header sender recipientId = .ok aad ∧ ∃ (nonce : BytesN 12) (K : BytesN 32),
      nonce.val = blob.take wrapNonceLen ∧ P.decrypt K nonce (blob.drop wrapNonceLen) aad = .ok body := by
  obtain ⟨_, _, _, aad, _, slot, ss, K, hcarries', haad, -, hfind, -, hK, hbody⟩ := openMulti_eq_some.mp h
  obtain ⟨rfl, rfl, rfl⟩ := hcarries.unique hcarries'
  have hnonce : (blob.take wrapNonceLen).length = 12 := by
    have hblob := htag _ _ _ _ _ hbody
    rw [List.length_drop] at hblob
    rw [List.length_take]
    simp only [wrapNonceLen] at hblob ⊢
    omega
  -- the scanner yields slots of 48 wrapped bytes only
  have hkey : K.length = 32 := by
    obtain ⟨front, raw, rest, -, -, -, rfl⟩ := exists_split hfind
    have hwrapped := htag _ _ _ _ _ hK
    rw [RawSlot.view, raw.wrappedK.length_val] at hwrapped
    simp only [pqdm2WrappedKLen, aesgcmTagLen] at hwrapped
    omega
  exact ⟨aad, haad, ⟨_, hnonce⟩, ⟨K, hkey⟩, rfl, hbody⟩

/-- A key id that a slot can carry. -/
def SlotName (keyId : Str) : Prop := Scalar keyId ∧ (utf8 keyId).length ≤ 255

/-- A slot that gives a key to the owner of a public key. -/
theorem exists_slot (hkem : P.KemCorrect) (hkemReturns : P.KemReturns) (haead : P.AeadCorrect)
    (haeadReturns : P.AeadReturns) {keyId : Str} (hname : SlotName keyId) {priv : BytesN privateKeyLen}
    {pub : BytesN publicKeyLen} (hkey : IsKeypair P priv pub) (nonce : BytesN 12) (K : BytesN 32) :
    ∃ slot : PackedSlot, slot.keyId = keyId ∧ ∃ ss, hybridDecap P (.bytes slot.encap) (.bytes priv) hkdfInfo = .ok ss ∧
      P.decrypt (pqdm2WrapKey P ss) nonce slot.wrappedK [] = .ok K := by
  obtain ⟨ct, ss, hencap⟩ := hybridEncap_returns hkem hkemReturns hkey ⟨.zero _, []⟩ hkdfInfo
  have hshort : K.val.length < 2 ^ 31 := by
    rw [K.length_val]
    decide
  obtain ⟨wrapped, hwrapped⟩ := haeadReturns.encrypt (pqdm2WrapKey P ss) nonce K [] hshort (by decide)
  have hlen : wrapped.length = pqdm2WrappedKLen := by
    rw [haead.length_encrypt _ _ _ _ _ hwrapped, K.length_val]
  refine ⟨⟨keyId, hname.1, hname.2, ct, ⟨wrapped, hlen⟩⟩, rfl, ss, ?_, haead.decrypt_encrypt _ _ _ _ _ hwrapped⟩
  exact hybridDecap_hybridEncap hkem hkey hencap

/-- If AES-GCM commits to the data, all devices that open a token get one body, whoever made the token. If it does
not, any two devices of different key ids can be shown two bodies by one token. -/
theorem openMulti_agrees (hkem : P.KemCorrect) (hkemReturns : P.KemReturns) (haead : P.AeadCorrect)
    (haeadReturns : P.AeadReturns) (sender recipientId : Str) :
    (P.AeadCommits (HeaderGives P sender recipientId) → ∀ token keyId privateHex keyId' privateHex' body body',
      openMulti P token keyId privateHex sender recipientId = .ok (some body) →
      openMulti P token keyId' privateHex' sender recipientId = .ok (some body') → body = body') ∧
    (¬P.AeadCommits (HeaderGives P sender recipientId) → ∀ keyId keyId' : Str, SlotName keyId → SlotName keyId' →
      keyId ≠ keyId' → ∀ priv pub priv' pub', IsKeypair P priv pub → IsKeypair P priv' pub' →
      ∃ token body body', body ≠ body' ∧
        openMulti P token keyId (hex priv) sender recipientId = .ok (some body) ∧
        openMulti P token keyId' (hex priv') sender recipientId = .ok (some body')) := by
  constructor
  · intro hcommits token keyId privateHex keyId' privateHex' body body' h h'
    obtain ⟨header, slots, blob, -, -, -, -, -, hcarries, -⟩ := openMulti_eq_some.mp h
    obtain ⟨aad, haad, nonce, K, hnonce, hbody⟩ :=
      exists_decrypt_of_openMulti haeadReturns.length_decrypt hcarries h
    obtain ⟨aad', haad', nonce', K', hnonce', hbody'⟩ :=
      exists_decrypt_of_openMulti haeadReturns.length_decrypt hcarries h'
    cases haad.symm.trans haad'
    obtain rfl : nonce = nonce' := BytesN.ext (hnonce.trans hnonce'.symm)
    exact hcommits _ _ _ _ _ _ _ ⟨header, haad⟩ hbody hbody'
  · intro hcommits keyId keyId' hname hname' hne priv pub priv' pub' hkey hkey'
    simp only [Primitives.AeadCommits, not_forall] at hcommits
    obtain ⟨nonce, ct, aad, K, K', body, body', ⟨header, haad⟩, hbody, hbody', hbodies⟩ := hcommits
    -- one slot for each of the two keys, before the one ciphertext
    obtain ⟨slot, hid, ss, hdecap, hK⟩ := exists_slot hkem hkemReturns haead haeadReturns hname hkey nonce K
    obtain ⟨slot', hid', ss', hdecap', hK'⟩ := exists_slot hkem hkemReturns haead haeadReturns hname' hkey' nonce K'
    have hfirst : [slot, slot'].find? (fun s => s.keyId = keyId) = some slot := List.find?_cons_of_pos (by simp [hid])
    have hsecond : [slot, slot'].find? (fun s => s.keyId = keyId') = some slot' := by
      rw [List.find?_cons_of_neg (by simpa [hid] using hne), List.find?_cons_of_pos (by simp [hid'])]
    refine ⟨Envelope.token ⟨header, [slot, slot'], nonce, ct⟩, body, body', hbodies, ?_, ?_⟩
    · exact (openMulti_token ..).mpr ⟨aad, priv, K, haad, fromHex_hex _, ⟨slot, ss, hfirst, hdecap, hK⟩, hbody⟩
    · exact (openMulti_token ..).mpr ⟨aad, priv', K', haad, fromHex_hex _, ⟨slot', ss', hsecond, hdecap', hK'⟩, hbody'⟩

end Agreement

/-! ### Two bodies -/

namespace AgreementExample

open WrapExample (alice bob)

/-- A cipher that shifts every byte by the first byte of the key, under a tag of zeros that it does not check. -/
def P : Primitives :=
  { WrapExample.P with
    encrypt := fun k _ data _ => .ok (data.map (· + k.headD 0) ++ List.replicate 16 0)
    decrypt := fun k _ ct _ => if ct.length < 16 then raiseLib (.foreign "InvalidTag")
      else .ok ((ct.take (ct.length - 16)).map (· - k.headD 0)) }

theorem aeadCorrect : P.AeadCorrect where
  decrypt_encrypt := by
    rintro k n data aad _ ⟨⟩
    have hlen : (data.map (· + k.headD 0) ++ List.replicate 16 0).length - 16 = (data.map (· + k.headD 0)).length := by
      simp
    show (if _ then _ else Except.ok _) = _
    rw [if_neg (by simp), hlen, List.take_left, List.map_map]
    simp [Function.comp_def]
  length_encrypt := by
    rintro k n data aad _ ⟨⟩
    simp

theorem aeadReturns : P.AeadReturns where
  encrypt _ _ _ _ _ _ := ⟨_, rfl⟩
  length_decrypt := by
    intro k n ct aad data h
    by_cases hlen : ct.length < 16
    · have herror : P.decrypt k n ct aad = raiseLib (.foreign "InvalidTag") := if_pos hlen
      cases herror.symm.trans h
    · have hok : P.decrypt k n ct aad = .ok _ := if_neg hlen
      cases hok.symm.trans h
      rw [List.length_map, List.length_take]
      omega

/-- A header of no key ids. -/
theorem headerGives : ∃ aad, HeaderGives P (str "carol") (str "team") aad := by
  have hparties : Scalar (parties hybridSuite (str "carol") (str "team")) := scalar_of_isAscii (by decide)
  have haad : pqdm2Aad P (.str hybridSuite) (str "carol") (str "team") (.arr (([] : List Str).map .str)) = .ok _ :=
    pqdm2Aad_eq_ok.mpr ⟨hybridSuite, _, rfl, sortedJoin_strs _, scalar_nil, hparties, rfl⟩
  have hheader : headerAad P _ (str "carol") (str "team") = _ :=
    headerAad_pqdm2Header hparties fun kid (hkid : kid ∈ []) => absurd hkid List.not_mem_nil
  exact ⟨_, _, hheader.trans haad⟩

theorem not_aeadCommits : ¬P.AeadCommits (HeaderGives P (str "carol") (str "team")) := by
  intro hcommits
  obtain ⟨aad, haad⟩ := headerGives
  have hsame :=
    hcommits (.zero 12) (List.replicate 17 0) aad (.zero 32) ⟨List.replicate 32 1, rfl⟩ [0] [255] haad rfl rfl
  exact absurd hsame (by decide)

/-- One token that carol makes, and the two bodies that alice and bob read. -/
theorem openMulti_agrees_run : ∃ token body body', body ≠ body' ∧
    openMulti P token (str "phone") (hex alice.privateKey) (str "carol") (str "team") = .ok (some body) ∧
    openMulti P token (str "laptop") (hex bob.privateKey) (str "carol") (str "team") = .ok (some body') := by
  have hkem : P.KemCorrect := ⟨WrapExample.kemCorrect.x25519, WrapExample.kemCorrect.oqs⟩
  have hkemReturns : P.KemReturns :=
    ⟨WrapExample.kemReturns.exchange, WrapExample.kemReturns.fresh, WrapExample.kemReturns.encap⟩
  have hname : ∀ {s : Str}, s.all isAscii = true ∧ (utf8 s).length ≤ 255 → SlotName s :=
    fun h => ⟨scalar_of_isAscii h.1, h.2⟩
  exact (openMulti_agrees hkem hkemReturns aeadCorrect aeadReturns _ _).2 not_aeadCommits _ _ (hname (by decide))
    (hname (by decide)) (by decide) _ _ _ _ WrapExample.isKeypair_alice WrapExample.isKeypair_bob

end AgreementExample

end Pqdm
end SkPqc
