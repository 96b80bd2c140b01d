import SkPqc.Proof.FanoutSeal
import SkPqc.Proof.KemErrors
import SkPqc.Proof.OneShot

/-!
# What malformed prekeys raise

The fields of a peer record are JSON values of any type, and the code meets their types where it first uses them.
`bytes.fromhex` of anything but a string raises `TypeError`, which the handler of `hybrid_public` does not name and
the one of `seal_multi` does; the key ids of `seal_multi` are read, sorted and joined before any handler. Past these
checks only the size limit of AES-GCM is left, and the errors of the modules themselves.
-/

namespace SkPqc
namespace Pqdm

open Wire Pqkem Runs

/-- The classes that a seal may raise. -/
def sealErrors : List ExcClass := [.pqDmError, .pqKemError]

theorem in_sealErrors_format (m : List Part) : Exc.In sealErrors ⟨.pqDmFormatError, m⟩ := rfl

/-- What the reading of the key ids may raise. -/
theorem not_in_sealErrors {e : Exc}
    (h : e.cls = .keyError ∨ e.cls = .typeError ∨ e.cls = .unicodeEncodeError) : ¬e.In sealErrors := by
  obtain ⟨cls, m⟩ := e
  rcases h with h | h | h <;>
  · cases h
    exact Bool.false_ne_true

theorem contained_of_kem {α : Type} {x : Py α} (h : Contained [.pqKemError] x) : Contained sealErrors x := by
  refine h.mono fun e he => ?_
  simp only [Exc.In, sealErrors, List.any_cons, List.any_nil, Bool.or_false] at he ⊢
  rw [he, Bool.or_true]

theorem contained_encrypt {P : Primitives} (hreturns : P.AeadReturns) (k : BytesN 32) (n : BytesN 12)
    {data aad : Bytes} (hdata : data.length < 2 ^ 31) (haad : aad.length < 2 ^ 31) :
    Contained sealErrors (P.encrypt k n data aad) := by
  obtain ⟨c, hc⟩ := hreturns.encrypt k n data aad hdata haad
  rw [hc]
  exact contained_ok c

/-! ### The one-shot seal -/

namespace PrekeyBundle

/-- A hybrid bundle whose key field is no string. -/
def Untyped (bundle : PrekeyBundle) : Prop :=
  bundle.isHybrid = true ∧ ∀ s, bundle.hybridPublicHex ≠ .str s

/-- A hybrid bundle with the hex text of a public key. -/
def Advertises (bundle : PrekeyBundle) (pub : BytesN publicKeyLen) : Prop :=
  bundle.isHybrid = true ∧ ∃ text, bundle.hybridPublicHex = .str text ∧ fromHex text = some pub.val

theorem truthy_of_isHybrid {bundle : PrekeyBundle} (h : bundle.isHybrid = true) :
    truthy bundle.hybridPublicHex = true := by
  unfold isHybrid at h
  split at h
  · exact (Bool.and_eq_true_iff.mp h).2
  · cases h

theorem hybridPublic_untyped {bundle : PrekeyBundle} (h : bundle.Untyped) :
    bundle.hybridPublic = .error ⟨.typeError, [.lib]⟩ := by
  obtain ⟨hhybrid, hnot⟩ := h
  have hhex : bytesFromhex bundle.hybridPublicHex = .error ⟨.typeError, [.lib]⟩ := by
    cases hjson : bundle.hybridPublicHex with
    | str s => exact absurd hjson (hnot s)
    | _ => rfl
  have htype : tryExcept [.valueError] (.error ⟨.typeError, [.lib]⟩ : Py Bytes) (fun exc =>
      raise .pqDmFormatError ([.lit "hybrid_public_hex not hex: "] ++ exc.msg)) = .error ⟨.typeError, [.lib]⟩ := rfl
  simp only [hybridPublic, truthy_of_isHybrid hhybrid, hhex, htype, Bool.not_true, Bool.false_eq_true, if_false,
    error_bind]

theorem hybridPublic_of_advertises {bundle : PrekeyBundle} {pub : BytesN publicKeyLen} (h : bundle.Advertises pub) :
    bundle.hybridPublic = .ok pub := by
  obtain ⟨-, text, htext, hhex⟩ := h
  exact (hybridPublic_eq_ok htext).mpr hhex

/-- The key of a hybrid bundle that is no `Untyped` one is read, or it is refused. -/
theorem ends_hybridPublic {bundle : PrekeyBundle} (hhybrid : bundle.isHybrid = true) (h : ¬bundle.Untyped) :
    Ends bundle.Advertises (Exc.In sealErrors) bundle.hybridPublic := by
  obtain ⟨text, htext⟩ : ∃ text, bundle.hybridPublicHex = .str text := by
    by_contra hnone
    exact h ⟨hhybrid, fun text htext => hnone ⟨text, htext⟩⟩
  have hhex : Ends (fun pub => fromHex text = some pub) (Exc.In [.valueError]) (bytesFromhex (.str text)) :=
    ends_ofOption (fun _ hpub => hpub) rfl
  rw [hybridPublic, htext]
  refine Ends.guard (in_sealErrors_format _) fun _ => ?_
  refine Ends.bind (Ends.renamed hhex in_sealErrors_format) fun pub hpub => ?_
  by_cases hlen : pub.length = publicKeyLen
  · rw [dif_pos hlen]
    exact .ok ⟨hhybrid, text, htext, hpub⟩
  · rw [dif_neg hlen]
    exact ends_raise (in_sealErrors_format _)

end PrekeyBundle

/-- The AAD of a seal. -/
def sealAad (sender recipient : Str) : Bytes := utf8 (Json.dumps (downgradeLockHead hybridSuite sender recipient))

theorem downgradeLockAad_eq_sealAad (sender recipient : Str) :
    downgradeLockAad hybridSuite sender recipient none = .ok (sealAad sender recipient) := by
  rw [downgradeLockAad_eq, Option.getD_none, List.append_nil, sealAad]

/-- AES-GCM refuses the plaintext or the AAD, for a key to which an encapsulation can return. -/
def Oversized (P : Primitives) (advertises : BytesN publicKeyLen → Prop) (plaintext : Bytes) (sender recipient : Str) :
    Prop :=
  ¬(plaintext.length < 2 ^ 31 ∧ (sealAad sender recipient).length < 2 ^ 31) ∧
    ∃ pub coins r, advertises pub ∧ hybridEncap P coins (.bytes pub) hkdfInfo = .ok r

/-- A seal raises an error of the two modules, whatever it draws, exactly when the key field of a hybrid bundle is a
string and AES-GCM does not refuse the size. -/
theorem contained_seal_iff {P : Primitives}
    (hencap : ∀ coins pub, Contained [.pqKemError] (hybridEncap P coins (.bytes pub) hkdfInfo))
    (hreturns : P.AeadReturns) (hoverflows : P.AeadOverflows) (plaintext : Bytes) (bundle : PrekeyBundle)
    (sender recipient : Str) :
    (∀ coins, Contained sealErrors (Pqdm.seal P coins plaintext bundle sender recipient)) ↔
      ¬bundle.Untyped ∧ ¬Oversized P bundle.Advertises plaintext sender recipient := by
  have haad := downgradeLockAad_eq_sealAad sender recipient
  constructor
  · intro h
    constructor
    · intro huntyped
      have hcontained := h { encap := { ephemeral := .zero _, mlkem := [] }, nonce := .zero _ }
      simp only [Pqdm.seal, huntyped.1, PrekeyBundle.hybridPublic_untyped huntyped, Bool.not_true, Bool.false_eq_true,
        if_false, error_bind] at hcontained
      exact absurd hcontained.of_error Bool.false_ne_true
    · rintro ⟨hsize, pub, coins, ⟨ct, ss⟩, hpub, hkem⟩
      obtain ⟨msg, hencrypt⟩ := hoverflows (wrapKey P ss (sealAad sender recipient)) (.zero _) plaintext _ hsize
      have hcontained := h { encap := coins, nonce := .zero _ }
      simp only [Pqdm.seal, hpub.1, PrekeyBundle.hybridPublic_of_advertises hpub, haad, hkem, hencrypt, Bool.not_true,
        Bool.false_eq_true, if_false, ok_bind, error_bind] at hcontained
      exact absurd hcontained.of_error Bool.false_ne_true
  · rintro ⟨htyped, hsize⟩ coins
    unfold Pqdm.seal
    refine Ends.guard (in_sealErrors_format _) fun hnot => ?_
    have hhybrid : bundle.isHybrid = true := by
      rwa [Bool.not_eq_true', Bool.not_eq_false] at hnot
    refine Ends.bind (PrekeyBundle.ends_hybridPublic hhybrid htyped) fun pub hpub => ?_
    rw [haad, ok_bind]
    refine Ends.bind (contained_of_kem (hencap coins.encap pub)).with_ok ?_
    rintro ⟨ct, ss⟩ hkem
    have hfits : plaintext.length < 2 ^ 31 ∧ (sealAad sender recipient).length < 2 ^ 31 := by
      by_contra hbig
      exact hsize ⟨hbig, pub, coins.encap, _, hpub, hkem⟩
    exact Contained.bind (contained_encrypt hreturns _ _ hfits.1 hfits.2) fun _ => contained_ok _

/-! ### Peer records -/

/-- A record of the hybrid suite whose key field is neither empty nor a string. -/
def UntypedKey (record : List (Str × Json)) : Prop :=
  lookup (str "suite") record = some (.str hybridSuite) ∧
    ∃ v, lookup (str "hybrid_public_hex") record = some v ∧ truthy v = true ∧ ∀ s, v ≠ .str s

/-- A record of the hybrid suite with the hex text of a public key. -/
def AdvertisesKey (record : List (Str × Json)) (pub : BytesN publicKeyLen) : Prop :=
  lookup (str "suite") record = some (.str hybridSuite) ∧ HasPublicKey record pub

/-- What makes the bundle of a record hybrid. -/
theorem isHybrid_fromDict {record : List (Str × Json)} :
    (PrekeyBundle.fromDict (some record)).isHybrid = true ↔
      lookup (str "suite") record = some (.str hybridSuite) ∧
        ∃ v, lookup (str "hybrid_public_hex") record = some v ∧ truthy v = true := by
  cases record with
  | nil =>
    constructor
    · intro h
      cases h
    · rintro ⟨hsuite, -⟩
      cases hsuite
  | cons m ms =>
    simp only [PrekeyBundle.fromDict, PrekeyBundle.isHybrid, Option.getD_some]
    constructor
    · intro h
      split at h
      · rename_i suite hsuite
        obtain ⟨hsame, htruthy⟩ := Bool.and_eq_true_iff.mp h
        obtain rfl := of_decide_eq_true hsame
        constructor
        · cases hlookup : lookup (str "suite") (m :: ms) with
          | none =>
            rw [hlookup] at hsuite
            exact absurd (Json.str.inj hsuite) (by decide)
          | some v =>
            rw [hlookup] at hsuite
            exact congrArg some hsuite
        · cases hlookup : lookup (str "hybrid_public_hex") (m :: ms) with
          | none =>
            rw [hlookup] at htruthy
            cases htruthy
          | some v =>
            rw [hlookup, Option.getD_some] at htruthy
            refine ⟨v, rfl, ?_⟩
            by_contra hnot
            rw [if_neg hnot] at htruthy
            cases htruthy
      · cases h
    · rintro ⟨hsuite, v, hv, htruthy⟩
      simp only [hsuite, hv, htruthy, Option.getD_some, if_true, decide_true, Bool.and_self]

theorem hybridPublicHex_fromDict {record : List (Str × Json)} {v : Json}
    (h : lookup (str "hybrid_public_hex") record = some v) (hv : truthy v = true) :
    (PrekeyBundle.fromDict (some record)).hybridPublicHex = v := by
  cases record with
  | nil => cases h
  | cons m ms => simp only [PrekeyBundle.fromDict, Option.getD_some, h, hv, if_true]

theorem untyped_fromDict {record : List (Str × Json)} :
    (PrekeyBundle.fromDict (some record)).Untyped ↔ UntypedKey record := by
  constructor
  · rintro ⟨hhybrid, hnot⟩
    obtain ⟨hsuite, v, hv, htruthy⟩ := isHybrid_fromDict.mp hhybrid
    rw [hybridPublicHex_fromDict hv htruthy] at hnot
    exact ⟨hsuite, v, hv, htruthy, hnot⟩
  · rintro ⟨hsuite, v, hv, htruthy, hnot⟩
    refine ⟨isHybrid_fromDict.mpr ⟨hsuite, v, hv, htruthy⟩, ?_⟩
    rwa [hybridPublicHex_fromDict hv htruthy]

theorem advertises_fromDict {record : List (Str × Json)} {pub : BytesN publicKeyLen} :
    (PrekeyBundle.fromDict (some record)).Advertises pub ↔ AdvertisesKey record pub := by
  constructor
  · rintro ⟨hhybrid, text, htext, hpub⟩
    obtain ⟨hsuite, v, hv, htruthy⟩ := isHybrid_fromDict.mp hhybrid
    rw [hybridPublicHex_fromDict hv htruthy] at htext
    exact ⟨hsuite, text, htext ▸ hv, hpub⟩
  · rintro ⟨hsuite, text, htext, hpub⟩
    have htruthy : truthy (.str text) = true := decide_eq_true (ne_nil_of_fromHex hpub)
    refine ⟨isHybrid_fromDict.mpr ⟨hsuite, _, htext, htruthy⟩, text, ?_, hpub⟩
    exact hybridPublicHex_fromDict htext htruthy

/-! ### The fanout seal -/

/-- A key id that the seal can use. -/
def StringKeyId (r : Recipient) : Prop := ∃ keyId, keyIdOf r = some keyId ∧ Scalar keyId

theorem ends_kids (recipients : List Recipient) :
    Ends (List.Forall₂ (fun r kid => getItem (str "key_id") r = .ok kid) recipients) (fun e => e.cls = .keyError)
      (recipients.mapM (getItem (str "key_id"))) := by
  refine ends_mapM fun r _ => ?_
  exact ends_ofOption (fun kid hkid => getItem_eq_ok.mpr hkid) rfl

theorem scalar_flatten_sortStrs {strs : List Str} : Scalar (sortStrs strs).flatten ↔ ∀ s ∈ strs, Scalar s := by
  unfold Scalar
  simp only [List.mem_flatten, (sortStrs_perm strs).mem_iff]
  constructor
  · intro h s hs c hc
    exact h c ⟨s, hs, hc⟩
  · rintro h c ⟨s, hs, hc⟩
    exact h s hs c hc

theorem eq_map_str {f : Json → Option Str} (hf : ∀ v s, f v = some s → v = .str s) {kids : List Json}
    {strs : List Str} (h : kids.map f = strs.map some) : kids = strs.map .str := by
  induction kids generalizing strs with
  | nil =>
    obtain rfl := List.map_eq_nil_iff.mp h.symm
    rfl
  | cons v kids ih =>
    cases strs with
    | nil => cases h
    | cons s strs =>
      obtain ⟨hv, hrest⟩ := List.cons.inj h
      rw [List.map_cons, hf v s hv, ih hrest]

/-- Joining raises unless every key id is a string. -/
theorem ends_sortedJoin (kids : List Json) :
    Ends (fun joined => ∃ strs : List Str, kids = strs.map .str ∧ joined = (sortStrs strs).flatten)
      (fun e => e.cls = .typeError) (sortedJoin (.arr kids)) := by
  simp only [sortedJoin]
  split
  · rename_i strs hstrs
    refine .ok ⟨strs, eq_map_str ?_ (eq_map_of_allSome hstrs), rfl⟩
    intro v s hv
    cases v with
    | str s' => exact congrArg Json.str (Option.some.inj hv)
    | _ => cases hv
  · exact ends_raise rfl

theorem ends_strEncode (s : Str) :
    Ends (fun _ => Scalar s) (fun e => e.cls = .unicodeEncodeError) (strEncode s) :=
  ends_ofOption (fun _ h => (encodeUtf8_eq_some.mp h).1) rfl

theorem length_aadBytes (P : Primitives) (parties joined : Str) :
    (aadBytes P parties joined).length = (utf8 parties).length + 33 := by
  rw [aadBytes, List.length_append, List.length_append, BytesN.length_val]
  rfl

/-- The AAD is built from strings of scalar values only. -/
theorem ends_pqdm2Aad (P : Primitives) {suite sender recipientId : Str}
    (hparties : Scalar (parties suite sender recipientId)) (kids : List Json) :
    Ends (fun aad => (∃ strs : List Str, kids = strs.map .str ∧ ∀ s ∈ strs, Scalar s) ∧
        aad.length = (utf8 (parties suite sender recipientId)).length + 33)
      (fun e => e.cls = .typeError ∨ e.cls = .unicodeEncodeError)
      (pqdm2Aad P (.str suite) sender recipientId (.arr kids)) := by
  obtain ⟨hsuite, hsender, hrecipient⟩ := scalar_parties.mp hparties
  refine Ends.bind ((ends_sortedJoin kids).mono (fun _ h => h) fun _ he => .inl he) ?_
  rintro joined ⟨strs, rfl, rfl⟩
  refine Ends.bind ((ends_strEncode _).mono (fun _ h => h) fun _ he => .inr he) fun _ hscalar => ?_
  simp only [jsonEncode, strEncode_of_scalar hsuite, strEncode_of_scalar hsender, strEncode_of_scalar hrecipient,
    ok_bind]
  refine .ok ⟨⟨strs, rfl, scalar_flatten_sortStrs.mp hscalar⟩, ?_⟩
  simp only [parties, utf8_append, List.length_append, BytesN.length_val]
  rfl

theorem contained_sealSlot {P : Primitives}
    (hencap : ∀ coins pub, Contained [.pqKemError] (hybridEncap P coins (.bytes pub) hkdfInfo))
    (hreturns : P.AeadReturns) (coins : SealMultiCoins) (i : Nat) {r : Recipient} (hr : StringKeyId r) :
    Contained sealErrors (sealSlot P coins i r) := by
  obtain ⟨keyId, hkeyId, hscalar⟩ := hr
  have hhex : Contained [.valueError, .keyError, .typeError]
      (do bytesFromhex (← getItem (str "hybrid_public_hex") r)) := by
    refine Contained.bind (ends_ofOption (fun _ _ => trivial) rfl) fun v => ?_
    cases v with
    | str s => exact ends_ofOption (fun _ _ => trivial) rfl
    | _ => exact contained_raise rfl
  have hmessageKey : coins.messageKey.val.length < 2 ^ 31 := by
    rw [BytesN.length_val]
    decide
  rw [sealSlot, keyIdOf_eq_some.mp hkeyId, ok_bind, jsonEncode, strEncode_of_scalar hscalar, ok_bind]
  refine Ends.guard (in_sealErrors_format _) fun _ => ?_
  refine Contained.bind (contained_renamed hhex in_sealErrors_format) fun pub => ?_
  refine Contained.bind (contained_of_kem (hencap _ pub)) fun kem => ?_
  exact Contained.bind (contained_encrypt hreturns _ _ hmessageKey (by decide)) fun _ => contained_ok _

theorem contained_sealSlots {P : Primitives}
    (hencap : ∀ coins pub, Contained [.pqKemError] (hybridEncap P coins (.bytes pub) hkdfInfo))
    (hreturns : P.AeadReturns) (coins : SealMultiCoins) {rs : List Recipient} (hrs : ∀ r ∈ rs, StringKeyId r)
    (i : Nat) : Contained sealErrors (sealSlots P coins i rs) := by
  induction rs generalizing i with
  | nil => exact contained_ok _
  | cons r rs ih =>
    refine Contained.bind (contained_sealSlot hencap hreturns coins i (hrs r List.mem_cons_self)) fun _ => ?_
    refine Contained.bind (ih (fun r' hr' => hrs r' (List.mem_cons_of_mem _ hr')) (i + 1)) fun _ => ?_
    exact contained_ok _

/-- The coins of a seal that a failing input does not depend on. -/
def anyCoins : SealMultiCoins :=
  { messageKey := .zero 32, nonce := .zero _, encap := fun _ => { ephemeral := .zero _, mlkem := [] } }

theorem stringKeyId_of_forall₂ {recipients : List Recipient} {strs : List Str}
    (h : List.Forall₂ (fun r kid => getItem (str "key_id") r = .ok kid) recipients (strs.map .str))
    (hscalar : ∀ s ∈ strs, Scalar s) : ∀ r ∈ recipients, StringKeyId r := by
  induction recipients generalizing strs with
  | nil =>
    intro r hr
    cases hr
  | cons r rs ih =>
    cases strs with
    | nil => cases h
    | cons s strs =>
      obtain ⟨hr, hrs⟩ := List.forall₂_cons.mp h
      intro r' hr'
      rcases List.mem_cons.mp hr' with rfl | hr'
      · exact ⟨s, keyIdOf_eq_some.mpr hr, hscalar s List.mem_cons_self⟩
      · exact ih hrs (fun t ht => hscalar t (List.mem_cons_of_mem _ ht)) r' hr'

/-- The key ids of recipients that have them are read. -/
theorem exists_kids {recipients : List Recipient} (h : ∀ r ∈ recipients, StringKeyId r) :
    ∃ strs : List Str, recipients.mapM (getItem (str "key_id")) = .ok (strs.map .str) ∧ ∀ s ∈ strs, Scalar s := by
  induction recipients with
  | nil => exact ⟨[], rfl, by simp⟩
  | cons r rs ih =>
    obtain ⟨keyId, hkeyId, hscalar⟩ := h r List.mem_cons_self
    obtain ⟨strs, hstrs, hall⟩ := ih fun r' hr' => h r' (List.mem_cons_of_mem _ hr')
    refine ⟨keyId :: strs, ?_, by simpa using ⟨hscalar, hall⟩⟩
    rw [List.mapM_cons, keyIdOf_eq_some.mp hkeyId, ok_bind, hstrs]
    rfl

/-- A fanout seal raises an error of the two modules, whatever it draws, exactly when there is no recipient, or when
every recipient has a key id that is a string of scalar values and AES-GCM does not refuse the size of the body or of
the AAD. -/
theorem contained_sealMulti_iff {P : Primitives}
    (hencap : ∀ coins pub, Contained [.pqKemError] (hybridEncap P coins (.bytes pub) hkdfInfo))
    (hreturns : P.AeadReturns) (hoverflows : P.AeadOverflows) (body : Bytes) (recipients : List Recipient)
    {sender recipientId : Str} (hsender : Scalar sender) (hrecipient : Scalar recipientId) :
    (∀ coins, Contained sealErrors (sealMulti P coins body recipients sender recipientId)) ↔
      recipients = [] ∨ ((∀ r ∈ recipients, StringKeyId r) ∧ body.length < 2 ^ 31 ∧
        (utf8 (parties hybridSuite sender recipientId)).length + 33 < 2 ^ 31) := by
  have hsuite : Scalar hybridSuite := scalar_of_isAscii (by decide)
  have hparties : Scalar (parties hybridSuite sender recipientId) := scalar_parties.mpr ⟨hsuite, hsender, hrecipient⟩
  constructor
  · intro h
    by_cases hnil : recipients = []
    · exact .inl hnil
    · have hseal := h anyCoins
      rw [sealMulti, if_neg (by rwa [List.isEmpty_iff])] at hseal
      -- each call before the encryption has to return, since nothing that it raises is allowed
      obtain ⟨kids, -, hkids, hrest⟩ := hseal.of_bind (ends_kids recipients) fun e he => not_in_sealErrors (.inl he)
      obtain ⟨aad, -, ⟨⟨strs, rfl, hscalar⟩, hlen⟩, hrest⟩ :=
        hrest.of_bind (ends_pqdm2Aad P hparties kids) fun e he => not_in_sealErrors (.inr he)
      refine .inr ⟨stringKeyId_of_forall₂ hkids hscalar, ?_⟩
      rw [← hlen]
      by_contra hsize
      obtain ⟨msg, hencrypt⟩ := hoverflows anyCoins.messageKey anyCoins.nonce body aad hsize
      rw [hencrypt, error_bind] at hrest
      exact absurd hrest.of_error Bool.false_ne_true
  · rintro (rfl | ⟨hids, hbody, haad⟩) coins
    · exact contained_raise (in_sealErrors_format _)
    · obtain ⟨strs, hkids, hscalar⟩ := exists_kids hids
      have hsealed : pqdm2Aad P (.str hybridSuite) sender recipientId (.arr (strs.map .str))
          = .ok (aadBytes P (parties hybridSuite sender recipientId) (sortStrs strs).flatten) :=
        pqdm2Aad_eq_ok.mpr
          ⟨hybridSuite, _, rfl, sortedJoin_strs strs, scalar_flatten_sortStrs.mpr hscalar, hparties, rfl⟩
      have hfits : (aadBytes P (parties hybridSuite sender recipientId) (sortStrs strs).flatten).length < 2 ^ 31 := by
        rw [length_aadBytes]
        exact haad
      have hheader : canonicalJson (pqdm2Header hybridSuite sender recipientId (strs.map .str)) = .ok _ :=
        strEncode_of_scalar (Json.scalar_dumps (plain_pqdm2Header hparties hscalar))
      rw [sealMulti, hkids, ok_bind, hsealed, ok_bind, hheader]
      refine Ends.guard (in_sealErrors_format _) fun _ => ?_
      refine Contained.bind (contained_encrypt hreturns _ _ hbody hfits) fun ct => ?_
      exact Contained.bind (contained_sealSlots hencap hreturns coins hids 0) fun _ => contained_ok _

/-! ### Prekeys of a peer -/

/-- Where an encapsulation raises a `PqKemError` only, a peer record and a list of recipients of any JSON types make
`seal` and `seal_multi` raise a `PqDmError` or a `PqKemError` only: exactly when the key field and the key ids are
strings and AES-GCM does not refuse the sizes. -/
theorem contained_prekeys_iff {P : Primitives}
    (hencap : ∀ coins pub, Contained [.pqKemError] (hybridEncap P coins (.bytes pub) hkdfInfo))
    (hreturns : P.AeadReturns) (hoverflows : P.AeadOverflows) (record : List (Str × Json)) (recipients : List Recipient)
    (plaintext body : Bytes) {sender recipient : Str} (hsender : Scalar sender) (hrecipient : Scalar recipient) :
    ((∀ coins, Contained sealErrors
          (Pqdm.seal P coins plaintext (.fromDict (some record)) sender recipient)) ↔
        ¬UntypedKey record ∧ ¬Oversized P (AdvertisesKey record) plaintext sender recipient) ∧
      ((∀ coins, Contained sealErrors (sealMulti P coins body recipients sender recipient)) ↔
        recipients = [] ∨ ((∀ r ∈ recipients, StringKeyId r) ∧ body.length < 2 ^ 31 ∧
          (utf8 (parties hybridSuite sender recipient)).length + 33 < 2 ^ 31)) := by
  have hadvertises : (PrekeyBundle.fromDict (some record)).Advertises = AdvertisesKey record :=
    funext fun _ => propext advertises_fromDict
  constructor
  · rw [contained_seal_iff hencap hreturns hoverflows, untyped_fromDict, hadvertises]
  · exact contained_sealMulti_iff hencap hreturns hoverflows body recipients hsender hrecipient

namespace PrekeyExample

/-- The stand-in with the size limit of AES-GCM. -/
def P : Primitives :=
  { StandIn.primitives StandIn.sums [] with
    encrypt := fun k n data aad =>
      if data.length < 2 ^ 31 ∧ aad.length < 2 ^ 31 then (StandIn.primitives StandIn.sums []).encrypt k n data aad
      else raiseLib .overflowError }

theorem contained_encap (coins : EncapCoins) (pub : Bytes) :
    Contained [.pqKemError] (hybridEncap P coins (.bytes pub) hkdfInfo) := by
  have hopens : ∀ oqs, P.importOqs = .ok oqs → oqs.Opens := by
    rintro _ ⟨⟩
    exact StandIn.oqs_opens
  exact contained_hybridEncap hopens coins hkdfInfo fun _ _ _ _ => contained_ok _

theorem aeadReturns : P.AeadReturns where
  encrypt _ _ _ _ hdata haad := ⟨_, if_pos ⟨hdata, haad⟩⟩
  length_decrypt _ _ _ _ _ h := StandIn.length_decrypt [] StandIn.sums h

theorem aeadOverflows : P.AeadOverflows := fun _ _ _ _ hsize => ⟨_, if_neg hsize⟩

/-- A record whose key is the number 5. -/
def numberKey : List (Str × Json) := [(str "suite", .str hybridSuite), (str "hybrid_public_hex", .int 5)]

/-- A record whose key is text, but no hex digits. -/
def textKey : List (Str × Json) := [(str "suite", .str hybridSuite), (str "hybrid_public_hex", .str (str "zz"))]

/-- Of these records and recipients, `seal` is contained on the text and `seal_multi` on a recipient that has a key id
and nothing else. -/
theorem contained_prekeys_run :
    (∀ coins, Contained sealErrors
        (Pqdm.seal P coins [] (.fromDict (some textKey)) (str "bob") (str "alice"))) ∧
      (∀ coins, Contained sealErrors
        (sealMulti P coins [] [[(str "key_id", .str (str "alice"))]] (str "bob") (str "alice"))) := by
  have hbob : Scalar (str "bob") := scalar_of_isAscii (by decide)
  have halice : Scalar (str "alice") := scalar_of_isAscii (by decide)
  obtain ⟨hseal, hsealMulti⟩ := contained_prekeys_iff contained_encap aeadReturns aeadOverflows textKey
    [[(str "key_id", .str (str "alice"))]] [] [] hbob halice
  constructor
  · refine hseal.mpr ⟨?_, ?_⟩
    · rintro ⟨-, v, hv, -, hnot⟩
      cases hv
      exact hnot _ rfl
    · rintro ⟨hsize, -⟩
      exact hsize (by decide)
  · refine hsealMulti.mpr (.inr ⟨?_, by decide, by decide⟩)
    intro r hr
    obtain rfl := List.mem_singleton.mp hr
    exact ⟨_, rfl, halice⟩

/-- The number makes `seal` raise `TypeError`; a recipient without a key id makes `seal_multi` raise `KeyError`. -/
theorem exists_foreign_errors :
    (∀ coins, Pqdm.seal P coins [] (.fromDict (some numberKey)) (str "bob") (str "alice")
        = .error ⟨.typeError, [.lib]⟩ ∧
      ¬Contained sealErrors (Pqdm.seal P coins [] (.fromDict (some numberKey)) (str "bob") (str "alice"))) ∧
    ∀ coins, sealMulti P coins [] [[]] (str "bob") (str "alice") = .error ⟨.keyError, [.lib]⟩ ∧
      ¬Contained sealErrors (sealMulti P coins [] [[]] (str "bob") (str "alice")) := by
  constructor
  · intro coins
    have hraises : Pqdm.seal P coins [] (.fromDict (some numberKey)) (str "bob") (str "alice")
        = .error ⟨.typeError, [.lib]⟩ := rfl
    rw [hraises]
    exact ⟨rfl, fun h => not_in_sealErrors (.inr (.inl rfl)) h.of_error⟩
  · intro coins
    have hraises : sealMulti P coins [] [[]] (str "bob") (str "alice") = .error ⟨.keyError, [.lib]⟩ := rfl
    rw [hraises]
    exact ⟨rfl, fun h => not_in_sealErrors (.inl rfl) h.of_error⟩

end PrekeyExample

end Pqdm
end SkPqc
