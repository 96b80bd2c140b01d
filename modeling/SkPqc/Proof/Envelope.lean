import SkPqc.Model.Pqdm2
import SkPqc.Proof.Kem
import SkPqc.Proof.Slots
import SkPqc.Wire.JsonRoundTrip

/-!
# Envelopes: the tokens of `pqdm2`, taken apart

An `Envelope` is what a token carries: header bytes, a list of slots, a nonce and a ciphertext, each with
the lengths the format fixes. `openMulti_token` says what `openMulti` does on the token of any envelope,
without the text; `exists_envelope` says that every token of `sealMulti` is one, slot by slot. All edits
of a token that keep its form are edits of its envelope.
-/

namespace SkPqc
namespace Pqdm

open Wire Pqkem

/-! ### Slots -/

/-- A slot as `sealMulti` packs it. -/
structure PackedSlot where
  keyId : Str
  scalar : Scalar keyId
  length_le : (utf8 keyId).length ≤ 255
  encap : BytesN ciphertextLen
  wrappedK : BytesN pqdm2WrappedKLen

namespace PackedSlot

def pack (s : PackedSlot) : Bytes :=
  [UInt8.ofNat (utf8 s.keyId).length] ++ utf8 s.keyId ++ s.encap ++ s.wrappedK

def view (s : PackedSlot) : Slot := { keyId := s.keyId, encap := s.encap, wrappedK := s.wrappedK }

theorem view_injective : Function.Injective view := by
  intro s t h
  simp only [view, Slot.mk.injEq] at h
  obtain ⟨hkid, hencap, hwrapped⟩ := h
  cases s
  cases t
  simp only [mk.injEq]
  exact ⟨hkid, BytesN.ext hencap, BytesN.ext hwrapped⟩

def raw (s : PackedSlot) : RawSlot := ⟨utf8 s.keyId, s.length_le, s.encap, s.wrappedK⟩

theorem view_raw (s : PackedSlot) : s.raw.view = s.view := by
  rw [view, RawSlot.view, raw, decodeUtf8Replace_utf8 s.scalar]

/-- The scanner reads a packed slot wherever it stands. -/
theorem readsPacked (s : PackedSlot) : ReadsPacked pqdm2NextSlot pack view s := by
  have hraw := s.raw.readsPacked
  rwa [ReadsPacked, view_raw] at hraw

/-- Packed slots are scanned as they are. -/
theorem pqdm2IterSlots_flatMap (slots : List PackedSlot) :
    pqdm2IterSlots (slots.flatMap pack) = (slots.map view, none) :=
  scan_flatMap pqdm2NextSlot pack view fun s _ => readsPacked s

theorem flatMap_pack_injective {slots slots' : List PackedSlot} (h : slots.flatMap pack = slots'.flatMap pack) :
    slots = slots' := by
  have hscan := pqdm2IterSlots_flatMap slots
  rw [h, pqdm2IterSlots_flatMap] at hscan
  exact (view_injective.list_map (congrArg Prod.fst hscan)).symm

end PackedSlot

/-! ### Tokens -/

theorem drop_prefix (s : Str) : (pqdm2Prefix ++ s).drop pqdm2Prefix.length = s := List.drop_left

/-- The three segments of a token are what it was made of: base64 text holds no separator. -/
theorem split_segments (headerJson slots blob : Bytes) :
    split (chr '.') (b64Text headerJson ++ str "." ++ b64Text slots ++ str "." ++ b64Text blob)
      = [b64Text headerJson, b64Text slots, b64Text blob] := by
  have hjoin : b64Text headerJson ++ str "." ++ b64Text slots ++ str "." ++ b64Text blob
      = [chr '.'].intercalate [b64Text headerJson, b64Text slots, b64Text blob] := by
    simp [List.intercalate, List.intersperse, str]
  rw [split, hjoin]
  refine List.splitOn_intercalate _ ?_ (List.cons_ne_nil _ _)
  intro segment hsegment
  simp only [List.mem_cons, List.not_mem_nil, or_false] at hsegment
  rcases hsegment with rfl | rfl | rfl <;> exact dot_notMem_b64Text _

theorem pqdm2Token_inj {headerJson slots blob headerJson' slots' blob' : Bytes}
    (h : pqdm2Token headerJson slots blob = pqdm2Token headerJson' slots' blob') :
    headerJson = headerJson' ∧ slots = slots' ∧ blob = blob' := by
  have hsegments := congrArg (split (chr '.')) (List.append_cancel_left h)
  rw [split_segments, split_segments] at hsegments
  simp only [List.cons.injEq, and_true] at hsegments
  have hinj : ∀ {b b' : Bytes}, b64Text b = b64Text b' → b = b' := by
    intro b b' hb
    have hdecode := b64decode_b64Text b
    rw [hb, b64decode_b64Text] at hdecode
    exact (Option.some.inj hdecode).symm
  exact ⟨hinj hsegments.1, hinj hsegments.2.1, hinj hsegments.2.2⟩

/-- What a token carries. -/
structure Envelope where
  header : Bytes
  slots : List PackedSlot
  nonce : BytesN wrapNonceLen
  ct : Bytes

def Envelope.token (e : Envelope) : Str := pqdm2Token e.header (e.slots.flatMap PackedSlot.pack) (e.nonce ++ e.ct)

theorem Envelope.token_injective : Function.Injective Envelope.token := by
  intro e e' h
  obtain ⟨header, slots, nonce, ct⟩ := e
  obtain ⟨header', slots', nonce', ct'⟩ := e'
  obtain ⟨hheader, hslots, hblob⟩ := pqdm2Token_inj h
  obtain ⟨hnonce, hct⟩ := List.append_inj hblob (by simp)
  simp only [mk.injEq]
  exact ⟨hheader, PackedSlot.flatMap_pack_injective hslots, BytesN.ext hnonce, hct⟩

/-! ### Opening -/

/-- The AAD that an open rebuilds from a header and the parties it is called with. -/
def headerAad (P : Primitives) (headerJson : Bytes) (sender recipientId : Str) : Py Bytes := do
  let header ← P.jsonLoadsBytes headerJson
  let kids ← jsonGet header (str "kids") (.arr [])
  let suite ← jsonGet header (str "suite") (.str hybridSuite)
  pqdm2Aad P suite sender recipientId kids

/-- The first slot of a key id unlocks, under a private key, the message key `K`. -/
def Envelope.Unlocks (P : Primitives) (e : Envelope) (myKeyId : Str) (priv K : Bytes) : Prop :=
  ∃ slot ss, e.slots.find? (fun slot => slot.keyId = myKeyId) = some slot ∧
    hybridDecap P (.bytes slot.encap) (.bytes priv) hkdfInfo = .ok ss ∧
    P.decrypt (pqdm2WrapKey P ss) e.nonce slot.wrappedK [] = .ok K

theorem tryExcept_none_returns {α : Type} (x : Py (Option α)) :
    ∃ o, (tryExcept [.exception] x fun _ => .ok none) = .ok o := by
  cases x with
  | ok o => exact ⟨o, rfl⟩
  | error e => exact ⟨none, tryExcept_exception e _⟩

theorem openMulti_returns (P : Primitives) (token myKeyId myPrivateHex sender recipientId : Str) :
    ∃ o, openMulti P token myKeyId myPrivateHex sender recipientId = .ok o :=
  tryExcept_none_returns _

/-- The slots that the scanner yields are searched as the packed ones are. -/
theorem find?_map_view (slots : List PackedSlot) (myKeyId : Str) :
    (slots.map PackedSlot.view).find? (fun slot => slot.keyId = myKeyId)
      = (slots.find? fun slot => slot.keyId = myKeyId).map PackedSlot.view := by
  rw [List.find?_map]
  rfl

/-- The three segments of a token, decoded. -/
def Carries (token : Str) (header slots blob : Bytes) : Prop :=
  pqdm2Prefix.isPrefixOf token = true ∧ ∃ hB64 slotsB64 bodyB64,
    split (chr '.') (token.drop pqdm2Prefix.length) = [hB64, slotsB64, bodyB64] ∧ b64decodeStr hB64 = .ok header ∧
      b64decodeStr slotsB64 = .ok slots ∧ b64decodeStr bodyB64 = .ok blob

theorem Carries.unique {token : Str} {header slots blob header' slots' blob' : Bytes}
    (h : Carries token header slots blob) (h' : Carries token header' slots' blob') :
    header = header' ∧ slots = slots' ∧ blob = blob' := by
  obtain ⟨-, _, _, _, hsplit, hheader, hslots, hblob⟩ := h
  obtain ⟨-, _, _, _, hsplit', hheader', hslots', hblob'⟩ := h'
  cases hsplit.symm.trans hsplit'
  exact ⟨Except.ok.inj (hheader.symm.trans hheader'), Except.ok.inj (hslots.symm.trans hslots'),
    Except.ok.inj (hblob.symm.trans hblob')⟩

theorem carries_pqdm2Token (headerJson slots blob : Bytes) :
    Carries (pqdm2Token headerJson slots blob) headerJson slots blob := by
  have hstart : pqdm2Prefix.isPrefixOf (pqdm2Token headerJson slots blob) = true := by
    rw [List.isPrefixOf_iff_prefix]
    exact List.prefix_append _ _
  refine ⟨hstart, _, _, _, ?_, b64decodeStr_b64Text _, b64decodeStr_b64Text _, b64decodeStr_b64Text _⟩
  rw [pqdm2Token, drop_prefix, split_segments]

/-- On any token a result is a body exactly when the header gives an AAD, the first slot that the scan yields
for the key id unlocks a message key, and the key opens the body under that AAD. -/
theorem openMulti_eq_some {P : Primitives} {token myKeyId myPrivateHex sender recipientId : Str} {body : Bytes} :
    openMulti P token myKeyId myPrivateHex sender recipientId = .ok (some body) ↔
      ∃ header slots blob aad priv slot ss K, Carries token header slots blob ∧
        headerAad P header sender recipientId = .ok aad ∧ fromHex myPrivateHex = some priv ∧
        (pqdm2IterSlots slots).1.find? (fun slot => slot.keyId = myKeyId) = some slot ∧
        hybridDecap P (.bytes slot.encap) (.bytes priv) hkdfInfo = .ok ss ∧
        P.decrypt (pqdm2WrapKey P ss) (blob.take wrapNonceLen) slot.wrappedK [] = .ok K ∧
        P.decrypt K (blob.take wrapNonceLen) (blob.drop wrapNonceLen) aad = .ok body := by
  unfold openMulti
  refine (tryExcept_default_eq_ok (Option.some_ne_none _).symm).trans ?_
  by_cases hstart : pqdm2Prefix.isPrefixOf token = true
  · simp only [hstart, Bool.not_true, Bool.false_eq_true, if_false, Carries, true_and]
    split
    · rename_i hB64 slotsB64 bodyB64 hsplit
      simp only [bind_eq_ok, headerAad, bytesFromhex, ofOption_eq_ok]
      constructor
      · rintro ⟨header, hheader, v, hv, slots, hslots, blob, hblob, kids, hkids, suite, hsuite, aad, haad, priv, hpriv,
          h⟩
        cases hfind : (pqdm2IterSlots slots).1.find? (fun slot => slot.keyId = myKeyId) with
        | none =>
          -- without a match the scan ends, or stops with its error
          rw [hfind] at h
          cases hstop : (pqdm2IterSlots slots).2 with
          | none =>
            rw [hstop] at h
            cases h
          | some exc =>
            rw [hstop] at h
            cases h
        | some slot =>
          simp only [hfind, bind_eq_ok] at h
          obtain ⟨ss, hdecap, K, hK, body', hbody, hret⟩ := h
          cases hret
          exact ⟨header, slots, blob, aad, priv, slot, ss, K, ⟨_, _, _, hsplit, hheader, hslots, hblob⟩,
            ⟨v, hv, kids, hkids, suite, hsuite, haad⟩, hpriv, hfind, hdecap, hK, hbody⟩
      · rintro ⟨header, slots, blob, aad, priv, slot, ss, K, ⟨_, _, _, hsplit', hheader, hslots, hblob⟩,
          ⟨v, hv, kids, hkids, suite, hsuite, haad⟩, hpriv, hfind, hdecap, hK, hbody⟩
        cases hsplit.symm.trans hsplit'
        refine ⟨header, hheader, v, hv, slots, hslots, blob, hblob, kids, hkids, suite, hsuite, aad, haad, priv, hpriv,
          ?_⟩
        simp only [hfind, bind_eq_ok]
        exact ⟨ss, hdecap, K, hK, body, hbody, rfl⟩
    · rename_i hshape
      constructor
      · intro h
        cases h
      · rintro ⟨_, _, _, _, _, _, _, _, ⟨_, _, _, hsplit, _⟩, _⟩
        exact absurd hsplit (hshape _ _ _)
  · have hfalse : pqdm2Prefix.isPrefixOf token = false := Bool.eq_false_of_not_eq_true hstart
    simp only [hfalse, Bool.not_false, if_true, Carries, Bool.false_eq_true, false_and, exists_false, iff_false]
    intro h
    cases h

/-- Two tokens open alike for a device if they carry one body region, their headers give one AAD, and the device
finds the same slot in both. -/
theorem openMulti_congr {P : Primitives} {token token' : Str} {header header' slots slots' blob : Bytes}
    (htoken : Carries token header slots blob) (htoken' : Carries token' header' slots' blob)
    {myKeyId myPrivateHex sender recipientId : Str}
    (haad : headerAad P header sender recipientId = headerAad P header' sender recipientId)
    (hfind : (pqdm2IterSlots slots).1.find? (fun slot => slot.keyId = myKeyId)
      = (pqdm2IterSlots slots').1.find? fun slot => slot.keyId = myKeyId) :
    openMulti P token myKeyId myPrivateHex sender recipientId
      = openMulti P token' myKeyId myPrivateHex sender recipientId := by
  have hbody : ∀ body, openMulti P token myKeyId myPrivateHex sender recipientId = .ok (some body) ↔
      openMulti P token' myKeyId myPrivateHex sender recipientId = .ok (some body) := by
    intro body
    rw [openMulti_eq_some, openMulti_eq_some]
    constructor
    · rintro ⟨_, _, _, aad, priv, slot, ss, K, hcarries, haad₁, hpriv, hslot, hrest⟩
      obtain ⟨rfl, rfl, rfl⟩ := htoken.unique hcarries
      exact ⟨_, _, _, aad, priv, slot, ss, K, htoken', haad.symm.trans haad₁, hpriv, hfind.symm.trans hslot, hrest⟩
    · rintro ⟨_, _, _, aad, priv, slot, ss, K, hcarries, haad₁, hpriv, hslot, hrest⟩
      obtain ⟨rfl, rfl, rfl⟩ := htoken'.unique hcarries
      exact ⟨_, _, _, aad, priv, slot, ss, K, htoken, haad.trans haad₁, hpriv, hfind.trans hslot, hrest⟩
  obtain ⟨o, ho⟩ := openMulti_returns P token myKeyId myPrivateHex sender recipientId
  obtain ⟨o', ho'⟩ := openMulti_returns P token' myKeyId myPrivateHex sender recipientId
  have hsame : o = o' := by
    apply Option.ext
    intro body
    have hiff := hbody body
    rwa [ho, ho', Except.ok.injEq, Except.ok.injEq] at hiff
  rw [ho, ho', hsame]

/-- On a token a result is a body exactly when the header gives an AAD, the first slot unlocks a message
key, and the key opens the body under that AAD. -/
theorem openMulti_token (P : Primitives) (e : Envelope) (myKeyId myPrivateHex sender recipientId : Str) (body : Bytes) :
    openMulti P e.token myKeyId myPrivateHex sender recipientId = .ok (some body) ↔
      ∃ aad priv K, headerAad P e.header sender recipientId = .ok aad ∧ fromHex myPrivateHex = some priv ∧
        e.Unlocks P myKeyId priv K ∧ P.decrypt K e.nonce e.ct aad = .ok body := by
  have hcarries : Carries e.token e.header (e.slots.flatMap PackedSlot.pack) (e.nonce ++ e.ct) :=
    carries_pqdm2Token _ _ _
  have hnonce : (e.nonce.val ++ e.ct).take wrapNonceLen = e.nonce := List.take_left' e.nonce.length_val
  have hct : (e.nonce.val ++ e.ct).drop wrapNonceLen = e.ct := List.drop_left' e.nonce.length_val
  rw [openMulti_eq_some]
  constructor
  · rintro ⟨header, slots, blob, aad, priv, slot, ss, K, htoken, haad, hpriv, hfind, hdecap, hK, hbody⟩
    obtain ⟨rfl, rfl, rfl⟩ := hcarries.unique htoken
    rw [PackedSlot.pqdm2IterSlots_flatMap, find?_map_view] at hfind
    obtain ⟨packed, hpacked, rfl⟩ := Option.map_eq_some_iff.mp hfind
    rw [hnonce] at hK hbody
    rw [hct] at hbody
    exact ⟨aad, priv, K, haad, hpriv, ⟨packed, ss, hpacked, hdecap, hK⟩, hbody⟩
  · rintro ⟨aad, priv, K, haad, hpriv, ⟨slot, ss, hfind, hdecap, hK⟩, hbody⟩
    refine ⟨_, _, _, aad, priv, slot.view, ss, K, hcarries, haad, hpriv, ?_, hdecap, ?_, ?_⟩
    · rw [PackedSlot.pqdm2IterSlots_flatMap, find?_map_view, hfind, Option.map_some]
    · rw [hnonce]
      exact hK
    · rw [hnonce, hct]
      exact hbody

end Pqdm
end SkPqc
