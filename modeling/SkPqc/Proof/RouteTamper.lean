import SkPqc.Proof.KemErrors
import SkPqc.Proof.RouteLimit

/-!
# Rewritten route headers

The AAD is made of the header bytes that the open itself cuts out of the blob. So an open of a changed blob
can only fail unless it cuts out the very header that was sealed (`rejectedWith_of_splitOuter`). A
rewritten header is cut out as it is, and a changed length field cuts out a header of another length. How it
fails depends on the recursion limit: a header that nests past it raises an error that the code does not turn
into one of its own (`openRouted_tampered_iff`).
-/

namespace SkPqc
namespace Pqroute

open Wire Pqkem Runs

/-- The AES-GCM ciphertext that a call of `seal_routed` makes. -/
def SealRoutedMakes (P : Primitives) (coins : SealCoins) (innerMetadata : Json) (content : Bytes)
    (destHybridPub : PyVal) (routeHdr : Json) (key nonce aadBytes ciphertext : Bytes) : Prop :=
  ∃ (pub : BytesN publicKeyLen) (routeBytes metaBytes metaLen : Bytes) (ct : BytesN ciphertextLen) (ss : BytesN 32),
    destHybridPub.data? = some pub.val ∧ canonical routeHdr = .ok routeBytes ∧
    canonical innerMetadata = .ok metaBytes ∧ packU32 metaBytes.length = some metaLen ∧
    hybridEncap P coins.encap (.bytes pub) hkdfInfo = .ok (ct, ss) ∧ aadBytes = aad routeBytes ∧
    key = wrapKey P ss aadBytes ∧ nonce = coins.nonce ∧
    P.encrypt key nonce (metaLen ++ metaBytes ++ content) aadBytes = .ok ciphertext

/-- What an open of a blob decrypts. -/
def OpenTries (P : Primitives) (blob priv key nonce aadBytes ciphertext : Bytes) : Prop :=
  ∃ routeBytes sealedInner ss, splitOuter (.bytes blob) = .ok (routeBytes, sealedInner) ∧
    hybridDecap P (.bytes (sealedInner.take ciphertextLen)) (.bytes priv) hkdfInfo = .ok ss ∧
    aadBytes = aad routeBytes ∧ key = wrapKey P ss aadBytes ∧
    nonce = slice sealedInner ciphertextLen (ciphertextLen + wrapNonceLen) ∧
    ciphertext = sealedInner.drop (ciphertextLen + wrapNonceLen)

/-- The blobs with another header, or with another value in the length field, before an unchanged sealed inner. -/
def Tampered (routeBytes sealedInner : Bytes) : Set Bytes :=
  {blob | (∃ h hdrLen, h ≠ routeBytes ∧ packU32 h.length = some hdrLen ∧ blob = hdrLen ++ h ++ sealedInner) ∨
    ∃ n hdrLen, n ≠ routeBytes.length ∧ packU32 n = some hdrLen ∧ blob = hdrLen ++ routeBytes ++ sealedInner}

/-- The header that is cut out of the blob nests past the limit, in front of a sealed inner that is long enough. -/
def CutsNested (P : Primitives) (levels : Nat) (blob : Bytes) : Prop :=
  ∃ hdrLen routeBytes sealedInner, packU32 routeBytes.length = some hdrLen ∧
    blob = hdrLen ++ routeBytes ++ sealedInner ∧ sealedMinLen ≤ sealedInner.length ∧ NestsPast P levels routeBytes

/-- The call raises `PqRouteFormatError` or `PqRouteOpenError`. -/
def Rejected {α : Type} (x : Py α) : Prop :=
  ∃ e, x = .error e ∧ (e.cls = .pqRouteFormatError ∨ e.cls = .pqRouteOpenError)

/-! ### Cutting a changed blob -/

theorem ends_splitOuter (blob : PyVal) :
    Ends (fun s => splitOuter blob = .ok s) (fun e => e.cls = .pqRouteFormatError) (splitOuter blob) := by
  cases h : splitOuter blob with
  | ok s => exact .ok rfl
  | error e =>
    refine .error ?_
    unfold splitOuter at h
    split at h
    · cases h
      rfl
    · split at h
      · cases h
        rfl
      · dsimp only at h
        split at h
        · cases h
          rfl
        · cases h

/-- The header that is cut out has the length that the field says. -/
theorem length_of_splitOuter {n : Nat} {hdrLen rest routeBytes sealedInner : Bytes} (hlen : packU32 n = some hdrLen)
    (h : splitOuter (.bytes (hdrLen ++ rest)) = .ok (routeBytes, sealedInner)) : routeBytes.length = n := by
  obtain ⟨hfour, hvalue⟩ := packU32_eq_some hlen
  obtain ⟨hdrLen', hlen', hblob⟩ := splitOuter_eq_ok.mp h
  obtain ⟨hfour', hvalue'⟩ := packU32_eq_some hlen'
  rw [List.append_assoc] at hblob
  obtain ⟨rfl, -⟩ := List.append_inj hblob (hfour.trans hfour'.symm)
  exact hvalue'.symm.trans hvalue

theorem exists_drop_of_splitOuter {blob routeBytes sealedInner : Bytes}
    (h : splitOuter (.bytes blob) = .ok (routeBytes, sealedInner)) : ∃ m, sealedInner = blob.drop m := by
  obtain ⟨hdrLen, -, rfl⟩ := splitOuter_eq_ok.mp h
  exact ⟨(hdrLen ++ routeBytes).length, List.drop_left.symm⟩

theorem splitOuter_of_tampered {routeBytes sealedInner blob cut rest : Bytes}
    (htamper : blob ∈ Tampered routeBytes sealedInner) (h : splitOuter (.bytes blob) = .ok (cut, rest)) :
    cut ≠ routeBytes := by
  rcases htamper with ⟨h', hdrLen, hne, hlen, rfl⟩ | ⟨n, hdrLen, hne, hlen, rfl⟩
  · rw [splitOuter_append hlen] at h
    cases h
    exact hne
  · rw [List.append_assoc] at h
    rintro rfl
    exact hne (length_of_splitOuter hlen h).symm

theorem aad_inj {routeBytes routeBytes' : Bytes} (h : aad routeBytes = aad routeBytes') : routeBytes = routeBytes' :=
  List.append_cancel_left h

/-! ### Opening a changed blob -/

theorem ends_loadsHeader (P : Primitives) {cls : ExcClass} (text : String) (b : Bytes) {err : Exc → Prop}
    (hcls : ∀ m, err ⟨cls, m⟩) : Ends (fun _ => True) err (loadsHeader P.jsonLoads cls text b) := by
  refine Ends.renamed (Ends.bind (ends_ofOption (fun _ _ => trivial) rfl) fun s _ => ?_) hcls
  exact ends_ofOption (fun _ _ => trivial) rfl

/-- An open that cuts out another header than the sealed one is rejected, where the interpreter reads that header or
raises a `ValueError`. -/
theorem rejectedWith_of_splitOuter {jsonLoads : Str → Py Json} {P : Primitives}
    (hopens : ∀ oqs, P.importOqs = .ok oqs → oqs.Opens) {coins : SealCoins} {innerMetadata routeHdr : Json}
    {content : Bytes} {destHybridPub : PyVal} {routeBytes : Bytes} (hroute : canonical routeHdr = .ok routeBytes)
    {blob priv : Bytes}
    (hauth : P.AeadAuthentic (SealRoutedMakes P coins innerMetadata content destHybridPub routeHdr)
      (OpenTries P blob priv))
    (hloads : ∀ cut rest, splitOuter (.bytes blob) = .ok (cut, rest) → sealedMinLen ≤ rest.length →
      Ends (fun _ => True) (fun e => e.cls = .pqRouteFormatError)
        (loadsHeader jsonLoads .pqRouteFormatError "route header not valid JSON: " cut))
    (hcut : ∀ cut rest, splitOuter (.bytes blob) = .ok (cut, rest) → cut ≠ routeBytes) :
    Rejected (openRoutedWith jsonLoads P (.bytes blob) (.bytes priv)) := by
  refine ends_false_iff.mp (Ends.bind ((ends_splitOuter _).mono (fun _ h => h) fun _ he => .inl he) ?_)
  rintro ⟨cut, sealedInner⟩ hsplit
  refine Ends.guard (.inl rfl) fun hlong => ?_
  refine Ends.bind ((hloads cut sealedInner hsplit (Nat.le_of_not_lt hlong)).mono (fun _ h => h) fun _ he => .inl he)
    fun _ _ => ?_
  refine Ends.bind (Ends.renamed (contained_hybridDecap hopens _ _ _).with_ok fun _ => .inr rfl) fun ss hss => ?_
  refine Ends.bind (Ends.renamed (contained_exception _).with_ok fun _ => .inr rfl) fun inner hinner => ?_
  -- a decryption that succeeded would have been made under the AAD of the sealed header
  obtain ⟨-, routeBytes', -, -, -, -, -, hroute', -, -, -, haad, -⟩ :=
    hauth _ _ _ _ ⟨cut, sealedInner, ss, hsplit, hss, rfl, rfl, rfl, rfl⟩ inner hinner
  obtain rfl : routeBytes = routeBytes' := Except.ok.inj (hroute.symm.trans hroute')
  exact absurd (aad_inj haad) (hcut cut sealedInner hsplit)

theorem rejected_of_splitOuter {P : Primitives} (hopens : ∀ oqs, P.importOqs = .ok oqs → oqs.Opens)
    {coins : SealCoins} {innerMetadata routeHdr : Json} {content : Bytes} {destHybridPub : PyVal}
    {routeBytes : Bytes} (hroute : canonical routeHdr = .ok routeBytes) {blob priv : Bytes}
    (hauth : P.AeadAuthentic (SealRoutedMakes P coins innerMetadata content destHybridPub routeHdr)
      (OpenTries P blob priv))
    (hcut : ∀ cut rest, splitOuter (.bytes blob) = .ok (cut, rest) → cut ≠ routeBytes) :
    Rejected (openRouted P (.bytes blob) (.bytes priv)) :=
  rejectedWith_of_splitOuter hopens hroute hauth (fun _ _ _ _ => ends_loadsHeader P _ _ fun _ => rfl) hcut

/-! ### Under a recursion limit -/

section Limited
variable {P : Primitives} {levels : Nat}

/-- What stands in front of the unchanged sealed inner decides alone. -/
theorem cutsNested_append_iff {hdrLen h sealedInner : Bytes} (hlen : packU32 h.length = some hdrLen)
    (hlong : sealedMinLen ≤ sealedInner.length) :
    CutsNested P levels (hdrLen ++ h ++ sealedInner) ↔ NestsPast P levels h := by
  constructor
  · rintro ⟨hdrLen', cut, rest, hlen', hblob, -, hdeep⟩
    have hsplit := (splitOuter_append hlen).symm.trans (hblob ▸ splitOuter_append hlen')
    cases hsplit
    exact hdeep
  · intro hdeep
    exact ⟨hdrLen, h, sealedInner, hlen, rfl, hlong, hdeep⟩

theorem openRoutedWithin_of_cutsNested {blob : Bytes} (h : CutsNested P levels blob) (priv : PyVal) :
    openRoutedWithin P levels (.bytes blob) priv = raiseLib .recursionError := by
  obtain ⟨hdrLen, routeBytes, sealedInner, hlen, rfl, hlong, hdeep⟩ := h
  rw [openRoutedWithin, openRoutedWith, splitOuter_append hlen, ok_bind]
  simp only [if_neg (Nat.not_lt.mpr hlong), loadsHeader_of_nestsPast hdeep]
  rfl

theorem not_rejected_recursionError {α : Type} : ¬Rejected (raiseLib .recursionError : Py α) := by
  rintro ⟨e, h, hcls⟩
  cases h
  rcases hcls with hcls | hcls <;> cases hcls

end Limited

/-- A rewritten header is a tampered one, if its canonical form is another. -/
theorem replaceRouteHeader_mem_tampered {hdrLen routeBytes sealedInner blob' : Bytes} {routeHdr' : Json}
    (hlen : packU32 routeBytes.length = some hdrLen) (hne : canonical routeHdr' ≠ .ok routeBytes)
    (h : replaceRouteHeader (.bytes (hdrLen ++ routeBytes ++ sealedInner)) routeHdr' = .ok blob') :
    blob' ∈ Tampered routeBytes sealedInner := by
  rw [replaceRouteHeader, splitOuter_append hlen, ok_bind] at h
  simp only [bind_eq_ok, tryExcept_raise_eq_ok, ofOption_eq_ok] at h
  obtain ⟨routeBytes', hcanonical, hdrLen', hlen', hblob⟩ := h
  refine .inl ⟨routeBytes', hdrLen', ?_, hlen', (Except.ok.inj hblob).symm⟩
  rintro rfl
  exact hne hcanonical

/-- A sealed blob is a length, the header and the sealed inner. With another header, whether written over the bytes or
by `replace_route_header`, or with another length, it is rejected under every key, unless the interpreter has a
recursion limit and the header that is cut out nests past it. A header that was written over the bytes is cut out
as it is. -/
theorem openRouted_tampered_iff {P : Primitives} (hopens : ∀ oqs, P.importOqs = .ok oqs → oqs.Opens)
    {coins : SealCoins} {innerMetadata routeHdr : Json} {content : Bytes} {destHybridPub : PyVal} {blob : Bytes}
    (hseal : sealRouted P coins innerMetadata content destHybridPub routeHdr = .ok blob) :
    ∃ hdrLen routeBytes sealedInner, canonical routeHdr = .ok routeBytes ∧ packU32 routeBytes.length = some hdrLen ∧
      blob = hdrLen ++ routeBytes ++ sealedInner ∧
      (∀ routeHdr' blob', canonical routeHdr' ≠ canonical routeHdr →
        replaceRouteHeader (.bytes blob) routeHdr' = .ok blob' → blob' ∈ Tampered routeBytes sealedInner) ∧
      (P.AeadCorrect → ∀ levels h hdrLen', packU32 h.length = some hdrLen' →
        (CutsNested P levels (hdrLen' ++ h ++ sealedInner) ↔ NestsPast P levels h)) ∧
      ∀ blob' ∈ Tampered routeBytes sealedInner, ∀ priv,
        P.AeadAuthentic (SealRoutedMakes P coins innerMetadata content destHybridPub routeHdr)
          (OpenTries P blob' priv) →
        Rejected (openRouted P (.bytes blob') (.bytes priv)) ∧ ∀ levels,
          (Rejected (openRoutedWithin P levels (.bytes blob') (.bytes priv)) ↔ ¬CutsNested P levels blob') ∧
          (CutsNested P levels blob' →
            openRoutedWithin P levels (.bytes blob') (.bytes priv) = raiseLib .recursionError) := by
  obtain ⟨_, routeBytes, _, _, hdrLen, ct, _, sealedBody, -, hroute, -, -, -, hencrypt, hlen, rfl⟩ :=
    sealRouted_eq_ok.mp hseal
  refine ⟨hdrLen, routeBytes, ct ++ coins.nonce ++ sealedBody, hroute, hlen, rfl, ?_, ?_, ?_⟩
  · intro routeHdr' blob' hne h
    rw [hroute] at hne
    exact replaceRouteHeader_mem_tampered hlen hne h
  · intro haead levels h hdrLen' hlen'
    refine cutsNested_append_iff hlen' ?_
    have htag := haead.tag_le hencrypt
    have hmin : sealedMinLen = ciphertextLen + wrapNonceLen + 16 := rfl
    simp only [List.length_append, ct.length_val, coins.nonce.length_val]
    omega
  · intro blob' htamper priv hauth
    have hcut : ∀ cut rest, splitOuter (.bytes blob') = .ok (cut, rest) → cut ≠ routeBytes :=
      fun cut rest hcut => splitOuter_of_tampered htamper hcut
    refine ⟨rejected_of_splitOuter hopens hroute hauth hcut, fun levels => ⟨⟨?_, ?_⟩, ?_⟩⟩
    · intro hrejected hnested
      rw [openRoutedWithin_of_cutsNested hnested] at hrejected
      exact not_rejected_recursionError hrejected
    · intro hflat
      refine rejectedWith_of_splitOuter hopens hroute hauth (fun cut rest hsplit hlong => ?_) hcut
      obtain ⟨hdrLen', hlen', hblob⟩ := splitOuter_eq_ok.mp hsplit
      have hnot : ¬NestsPast P levels cut := fun hdeep => hflat ⟨hdrLen', cut, rest, hlen', hblob, hlong, hdeep⟩
      rw [loadsHeader_of_not_nestsPast hnot]
      exact ends_loadsHeader P _ _ fun _ => rfl
    · exact fun hnested => openRoutedWithin_of_cutsNested hnested _

/-! ### Two tampered blobs -/

namespace TamperExample

open StandIn (aliceCoins encapCoins)
open Example (routeHdr plain_routeHdr plain_empty coins keys)

def routeBytes : Bytes := utf8 (Json.dumps (.obj routeHdr))

def sealedKey : BytesN 32 :=
  wrapKey (StandIn.primitives StandIn.sums []) (StandIn.sumSecret encapCoins keys.publicKey hkdfInfo) (aad routeBytes)

def triple : Bytes × Bytes × Bytes := (sealedKey.val, coins.nonce.val, aad routeBytes)

def P : Primitives := StandIn.primitives StandIn.sums [triple]

/-- The sealed inner without the tag at its end. -/
def front : Bytes :=
  (StandIn.encapCt StandIn.sums encapCoins keys.publicKey).val ++ coins.nonce.val
    ++ (beBytes 4 2 ++ utf8 (Json.dumps (.obj [])) ++ ascii "hi")

def sealedInner : Bytes := front ++ (StandIn.tag [triple] triple).val

def blob : Bytes := beBytes 4 routeBytes.length ++ routeBytes ++ sealedInner

theorem sealRouted_blob :
    sealRouted P coins (.obj []) (ascii "hi") (.bytes keys.publicKey) (.obj routeHdr) = .ok blob := by
  refine sealRouted_eq_ok.mpr ⟨keys.publicKey, routeBytes, _, _, _, _, _, _, rfl, canonical_eq plain_routeHdr,
    canonical_eq plain_empty, if_pos (by decide), StandIn.hybridEncap_sums _ _ _ _, rfl, if_pos (by decide), ?_⟩
  rw [blob, sealedInner, front]
  simp only [List.append_assoc]
  rfl

/-- A tampered blob ends in the tag as well, and what is cut out of it is opened with the sealed triple only. -/
theorem aeadAuthentic {blob' : Bytes} (htamper : blob' ∈ Tampered routeBytes sealedInner) (priv : Bytes) :
    P.AeadAuthentic (SealRoutedMakes P coins (.obj []) (ascii "hi") (.bytes keys.publicKey) (.obj routeHdr))
      (OpenTries P blob' priv) := by
  rintro _ _ _ _ ⟨cut, rest, ss, hsplit, -, rfl, rfl, rfl, rfl⟩ data hopen
  have hcut : cut ≠ routeBytes := splitOuter_of_tampered htamper hsplit
  obtain ⟨front', hfront⟩ : ∃ front', blob' = front' ++ (StandIn.tag [triple] triple).val := by
    rcases htamper with ⟨h, hdrLen, -, -, rfl⟩ | ⟨n, hdrLen, -, -, rfl⟩
    · exact ⟨hdrLen ++ h ++ front, by rw [sealedInner, List.append_assoc _ front]⟩
    · exact ⟨hdrLen ++ routeBytes ++ front, by rw [sealedInner, List.append_assoc _ front]⟩
  obtain ⟨m, rfl⟩ := exists_drop_of_splitOuter hsplit
  rw [hfront, List.drop_drop] at hopen
  have htriple := StandIn.eq_of_decrypt_drop StandIn.sums (by decide) (List.mem_singleton_self triple) hopen
  exact absurd (aad_inj (congrArg (fun t => t.2.2) htriple)) hcut

def routeHdr' : Json := .obj [(str "to_relay", .str (str "r2"))]

theorem plain_routeHdr' : routeHdr'.Plain := by
  refine ⟨by decide, ?_⟩
  simp only [Json.PlainMembers, Json.Plain, and_true]
  exact ⟨scalar_of_isAscii (by decide), scalar_of_isAscii (by decide)⟩

def routeBytes' : Bytes := utf8 (Json.dumps routeHdr')

def blob' : Bytes := beBytes 4 routeBytes'.length ++ routeBytes' ++ sealedInner

theorem replaceRouteHeader_blob : replaceRouteHeader (.bytes blob) routeHdr' = .ok blob' := by
  have hlen : packU32 routeBytes.length = some (beBytes 4 routeBytes.length) := if_pos (by decide)
  have hlen' : packU32 routeBytes'.length = some (beBytes 4 routeBytes'.length) := if_pos (by decide)
  have hroute : canonical routeHdr' = .ok routeBytes' := canonical_eq plain_routeHdr'
  simp only [replaceRouteHeader, blob, splitOuter_append hlen, hroute, tryExcept_ok, ok_bind, hlen', ofOption_some]
  rfl

theorem canonical_ne : canonical routeHdr' ≠ canonical (.obj routeHdr) := by
  rw [canonical_eq plain_routeHdr', canonical_eq plain_routeHdr]
  intro h
  exact absurd (Except.ok.inj h) (by decide)

theorem opens : ∀ oqs, P.importOqs = .ok oqs → oqs.Opens := by
  intro oqs h
  cases h
  exact StandIn.oqs_opens

theorem length_sealedInner : sealedMinLen ≤ sealedInner.length := by
  have hmin : sealedMinLen = ciphertextLen + wrapNonceLen + 16 := rfl
  simp only [sealedInner, front, List.length_append, BytesN.length_val]
  omega

/-- The sealed inner behind `n` opening brackets. -/
def nested (n : Nat) : Bytes := beBytes 4 n ++ brackets n ++ sealedInner

theorem packU32_brackets {n : Nat} (h : n < 2 ^ 32) : packU32 (brackets n).length = some (beBytes 4 n) := by
  rw [length_brackets]
  exact if_pos h

theorem nested_mem_tampered {n : Nat} (hne : n ≠ routeBytes.length) (h : n < 2 ^ 32) :
    nested n ∈ Tampered routeBytes sealedInner := by
  refine .inl ⟨brackets n, beBytes 4 n, ?_, packU32_brackets h, rfl⟩
  intro heq
  exact hne (by rw [← heq, length_brackets])

/-- The header rewritten for another relay, and a length field of zero; and a header of brackets only, which is
rejected where they fit under the recursion limit. -/
theorem openRouted_tampered_runs : replaceRouteHeader (.bytes blob) routeHdr' = .ok blob' ∧
    Rejected (openRoutedWithin P 1000 (.bytes blob') (.bytes keys.privateKey)) ∧
    Rejected (openRouted P (.bytes (beBytes 4 0 ++ routeBytes ++ sealedInner)) (.bytes keys.privateKey)) ∧
    Rejected (openRouted P (.bytes (nested 100000)) (.bytes keys.privateKey)) ∧
    ¬Rejected (openRoutedWithin P 1000 (.bytes (nested 100000)) (.bytes keys.privateKey)) := by
  obtain ⟨hdrLen, cut, rest, hroute, hlen, hblob, hreplaced, hnested, hrejected⟩ :=
    openRouted_tampered_iff opens sealRouted_blob
  obtain rfl : routeBytes = cut := Except.ok.inj ((canonical_eq plain_routeHdr).symm.trans hroute)
  obtain rfl : beBytes 4 routeBytes.length = hdrLen := Option.some.inj ((if_pos (by decide)).symm.trans hlen)
  obtain rfl : sealedInner = rest := List.append_cancel_left hblob
  have htamper := hreplaced _ _ canonical_ne replaceRouteHeader_blob
  have hzero : beBytes 4 0 ++ routeBytes ++ sealedInner ∈ Tampered routeBytes sealedInner :=
    .inr ⟨0, beBytes 4 0, by decide, rfl, rfl⟩
  have hbrackets : nested 100000 ∈ Tampered routeBytes sealedInner := nested_mem_tampered (by decide) (by decide)
  have hlen' : packU32 routeBytes'.length = some (beBytes 4 routeBytes'.length) := if_pos (by decide)
  have hflat : ¬CutsNested P 1000 blob' := by
    rw [blob', hnested (StandIn.aeadCorrect _ _) 1000 _ _ hlen', routeBytes', nestsPast_dumps plain_routeHdr']
    decide
  have hdeep : CutsNested P 1000 (nested 100000) := by
    rw [nested, hnested (StandIn.aeadCorrect _ _) 1000 _ _ (packU32_brackets (by decide))]
    exact nestsPast_brackets (by decide)
  refine ⟨replaceRouteHeader_blob, ?_, ?_, ?_, ?_⟩
  · exact ((hrejected _ htamper _ (aeadAuthentic htamper _)).2 1000).1.mpr hflat
  · exact (hrejected _ hzero _ (aeadAuthentic hzero _)).1
  · exact (hrejected _ hbrackets _ (aeadAuthentic hbrackets _)).1
  · exact fun h => ((hrejected _ hbrackets _ (aeadAuthentic hbrackets _)).2 1000).1.mp h hdeep

/-- A sealed blob with its header overwritten by `b"[" * 100000`: with 1000 levels left the open raises
`RecursionError`. -/
theorem exists_recursionError :
    sealRouted P coins (.obj []) (ascii "hi") (.bytes keys.publicKey) (.obj routeHdr) = .ok blob ∧
      nested 100000 ∈ Tampered routeBytes sealedInner ∧
      P.AeadAuthentic (SealRoutedMakes P coins (.obj []) (ascii "hi") (.bytes keys.publicKey) (.obj routeHdr))
        (OpenTries P (nested 100000) keys.privateKey) ∧
      openRoutedWithin P 1000 (.bytes (nested 100000)) (.bytes keys.privateKey)
        = .error ⟨.recursionError, [.lib]⟩ ∧
      ¬Rejected (openRoutedWithin P 1000 (.bytes (nested 100000)) (.bytes keys.privateKey)) := by
  have htamper : nested 100000 ∈ Tampered routeBytes sealedInner := nested_mem_tampered (by decide) (by decide)
  have hlen : packU32 (brackets 100000).length = some (beBytes 4 100000) := packU32_brackets (by decide)
  have hdeep : NestsPast P 1000 (brackets 100000) := nestsPast_brackets (by decide)
  have hraises : openRoutedWithin P 1000 (.bytes (nested 100000)) (.bytes keys.privateKey) = raiseLib .recursionError :=
    openRoutedWithin_of_cutsNested ((cutsNested_append_iff hlen length_sealedInner).mpr hdeep) _
  refine ⟨sealRouted_blob, htamper, aeadAuthentic htamper _, hraises, ?_⟩
  rw [hraises]
  exact not_rejected_recursionError

end TamperExample

end Pqroute
end SkPqc
