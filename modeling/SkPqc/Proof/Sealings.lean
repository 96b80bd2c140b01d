import SkPqc.Proof.EpochWrap
import SkPqc.Proof.Fanout
import SkPqc.Proof.RouteTamper
import SkPqc.Schemes.Sealing

/-!
# What the sealing calls make

Every call that seals makes AES-GCM ciphertexts, under a key that HKDF derives or, for the body of a fanout
token, under a key that the call draws. `sealings` collects those of a list of calls. A key's HKDF input names
the layer, so a ciphertext under a wrap key of one layer comes from a call of that layer (`layer_of_makes`).
-/

namespace SkPqc

open Wire Pqkem Schemes

/-- Where an AES-GCM key comes from. -/
inductive KeySource where
  | derived (i : HkdfInput)
  | drawn (k : Bytes)

/-- AES-GCM with the keys that the code gives it. -/
def Primitives.cipher (P : Primitives) : Cipher KeySource Bytes Bytes Bytes Bytes Bytes where
  key
    | .derived i => P.hkdf i
    | .drawn k => k
  decrypt k n aad c := (P.decrypt k n c aad).toOption

theorem Primitives.result_eq_some {P : Primitives} {a : Attempt KeySource Bytes Bytes Bytes} {data : Bytes} :
    P.cipher.result a = some data ↔ P.decrypt (P.cipher.key a.source) a.nonce a.body a.aad = .ok data := by
  show (P.decrypt (P.cipher.key a.source) a.nonce a.body a.aad).toOption = some data ↔ _
  cases P.decrypt (P.cipher.key a.source) a.nonce a.body a.aad with
  | error e => simp [Except.toOption]
  | ok data' => simp [Except.toOption]

/-- A sealing that AES-GCM makes. -/
def Primitives.Encrypts (P : Primitives) (s : Sealing KeySource Bytes Bytes Bytes Bytes) : Prop :=
  P.encrypt (P.cipher.key s.source) s.nonce s.data s.aad = .ok s.body

theorem Primitives.AeadCorrect.undoes {P : Primitives} (h : P.AeadCorrect)
    {made : Set (Sealing KeySource Bytes Bytes Bytes Bytes)} (hmade : ∀ s ∈ made, P.Encrypts s) :
    P.cipher.Undoes made :=
  fun s hs => Primitives.result_eq_some.mpr (h.decrypt_encrypt _ _ _ _ _ (hmade s hs))

/-- The ratchet modules, by name. -/
inductive RatchetModule where
  | group
  | dm
  deriving DecidableEq

namespace RatchetModule

def ratchet : RatchetModule → RatchetLayer
  | group => GroupRatchet.layer
  | dm => DmRatchet.layer

/-- The derivation of the module's wrap key. -/
def wrapKey : RatchetModule → BytesN 32 → Derivation
  | group => .groupEpochWrap
  | dm => .dmEpochWrap

theorem input_wrapKey (M : RatchetModule) (ss : BytesN 32) :
    (M.wrapKey ss).input = M.ratchet.epochWrapInput ss := by
  cases M <;> rfl

end RatchetModule

/-- A call that seals something, with what it draws. -/
inductive SealCall where
  | oneShot (coins : Pqdm.SealCoins) (plaintext : Bytes) (bundle : Pqdm.PrekeyBundle) (sender recipient : Str)
  | fanout (coins : Pqdm.SealMultiCoins) (body : Bytes) (recipients : List Pqdm.Recipient)
    (sender recipientId : Str)
  | routed (coins : Pqroute.SealCoins) (innerMetadata : Json) (content : Bytes) (pub : BytesN publicKeyLen)
    (routeHdr : Json)
  | wrap (M : RatchetModule) (coins : WrapCoins) (secret : Bytes) (pub : BytesN publicKeyLen)

/-- A decryption under the key of a derivation. -/
def wrapAttempt (d : Derivation) (nonce aad body : Bytes) : Attempt KeySource Bytes Bytes Bytes :=
  { source := .derived d.input, nonce := nonce, aad := aad, body := body }

namespace SealCall

/-- The layer of the wrap keys of a call. -/
def layer : SealCall → Layer
  | oneShot .. => .pqdmWrap
  | fanout .. => .pqdm2SlotWrap
  | routed .. => .pqrouteWrap
  | wrap .group .. => .groupEpochWrap
  | wrap .dm .. => .dmEpochWrap

/-- What a call encrypts under wrap keys: the derivation, the nonce, the AAD and the data. -/
def Wraps (P : Primitives) : SealCall → Derivation → (nonce aad data : Bytes) → Prop
  | oneShot coins plaintext bundle sender recipient, d, nonce, aad, data =>
    ∃ pub ct ss, bundle.isHybrid = true ∧ bundle.hybridPublic = .ok pub ∧
      Pqdm.downgradeLockAad Pqdm.hybridSuite sender recipient none = .ok aad ∧
      hybridEncap P coins.encap (.bytes pub) hkdfInfo = .ok (ct, ss) ∧
      d = .pqdmWrap ss aad ∧ nonce = coins.nonce ∧ data = plaintext
  | fanout coins _ recipients _ _, d, nonce, aad, data =>
    ∃ pub ct ss, Pqdm.Encapsulates P coins recipients pub ct ss ∧
      d = .pqdm2SlotWrap ss ∧ nonce = coins.nonce ∧ aad = [] ∧ data = coins.messageKey
  | routed coins innerMetadata content pub routeHdr, d, nonce, aad, data =>
    ∃ routeBytes metaBytes metaLen ct ss, Pqroute.canonical routeHdr = .ok routeBytes ∧
      Pqroute.canonical innerMetadata = .ok metaBytes ∧ packU32 metaBytes.length = some metaLen ∧
      hybridEncap P coins.encap (.bytes pub) hkdfInfo = .ok (ct, ss) ∧ aad = Pqroute.aad routeBytes ∧
      d = .pqrouteWrap ss routeBytes ∧ nonce = coins.nonce ∧ data = metaLen ++ metaBytes ++ content
  | wrap M coins secret pub, d, nonce, aad, data =>
    ∃ ct ss, secret.length = RatchetLayer.epochSecretLen ∧
      hybridEncap P coins.encap (.bytes pub) hkdfInfo = .ok (ct, ss) ∧ d = M.wrapKey ss ∧ nonce = coins.nonce ∧
      aad = [] ∧ data = secret

/-- What a call encrypts under a key it draws: the body of a fanout token. -/
def Draws (P : Primitives) : SealCall → (key nonce aad data : Bytes) → Prop
  | fanout coins body recipients sender recipientId, key, nonce, aad, data =>
    ∃ kids, recipients.mapM (getItem (str "key_id")) = .ok kids ∧
      Pqdm.pqdm2Aad P (.str Pqdm.hybridSuite) sender recipientId (.arr kids) = .ok aad ∧
      key = coins.messageKey ∧ nonce = coins.nonce ∧ data = body
  | _, _, _, _, _ => False

theorem layer_of_wraps {P : Primitives} {call : SealCall} {d : Derivation} {nonce aad data : Bytes}
    (h : call.Wraps P d nonce aad data) : d.layer = call.layer := by
  cases call with
  | oneShot =>
    obtain ⟨_, _, _, -, -, -, -, rfl, -⟩ := h
    rfl
  | fanout =>
    obtain ⟨_, _, _, -, rfl, -⟩ := h
    rfl
  | routed =>
    obtain ⟨_, _, _, _, _, -, -, -, -, -, rfl, -⟩ := h
    rfl
  | wrap M =>
    obtain ⟨_, _, -, -, rfl, -⟩ := h
    cases M <;> rfl

theorem layer_ne_combiner (call : SealCall) : call.layer ≠ .combiner := by
  rcases call with _ | _ | _ | ⟨_ | _⟩ <;> exact Layer.noConfusion

end SealCall

/-- The AES-GCM ciphertexts that a list of calls makes. -/
def sealings (P : Primitives) (calls : List SealCall) : Set (Sealing KeySource Bytes Bytes Bytes Bytes) :=
  {s | P.Encrypts s ∧ ∃ call ∈ calls,
    (∃ d, s.source = .derived d.input ∧ call.Wraps P d s.nonce s.aad s.data) ∨
      ∃ key, s.source = .drawn key ∧ call.Draws P key s.nonce s.aad s.data}

variable {P : Primitives} {calls : List SealCall}

/-- A ciphertext under the wrap key of a layer was made by a call of the layer, for a derivation with the same
input. -/
theorem mem_sealings_wrap {d : Derivation} (hd : d.layer ≠ .combiner) {nonce aad body data : Bytes} :
    ⟨wrapAttempt d nonce aad body, data⟩ ∈ sealings P calls ↔
      P.encrypt (P.hkdf d.input) nonce data aad = .ok body ∧
        ∃ call ∈ calls, call.layer = d.layer ∧ ∃ d', d'.input = d.input ∧ call.Wraps P d' nonce aad data := by
  constructor
  · rintro ⟨hencrypt, call, hcall, ⟨d', hsource, hwraps⟩ | ⟨key, hsource, -⟩⟩
    · have hinput : d'.input = d.input := (KeySource.derived.inj hsource).symm
      have hlayer := SealCall.layer_of_wraps hwraps
      have hd' : d'.layer ≠ .combiner := hlayer ▸ call.layer_ne_combiner
      have hsame := Derivation.layer_eq_of_info_eq hd' hd (congrArg HkdfInput.info hinput)
      exact ⟨hencrypt, call, hcall, hlayer.symm.trans hsame, d', hinput, hwraps⟩
    · cases hsource
  · rintro ⟨hencrypt, call, hcall, -, d', hinput, hwraps⟩
    exact ⟨hencrypt, call, hcall, .inl ⟨d', congrArg _ hinput.symm, hwraps⟩⟩

/-- A ciphertext under a drawn key was made by a call that drew the key. -/
theorem mem_sealings_drawn {key nonce aad body data : Bytes} :
    ⟨⟨.drawn key, nonce, aad, body⟩, data⟩ ∈ sealings P calls ↔
      P.encrypt key nonce data aad = .ok body ∧ ∃ call ∈ calls, call.Draws P key nonce aad data := by
  constructor
  · rintro ⟨hencrypt, call, hcall, ⟨_, hsource, -⟩ | ⟨_, hsource, hdraws⟩⟩
    · cases hsource
    · cases hsource
      exact ⟨hencrypt, call, hcall, hdraws⟩
  · rintro ⟨hencrypt, call, hcall, hdraws⟩
    exact ⟨hencrypt, call, hcall, .inr ⟨key, rfl, hdraws⟩⟩

/-- A decryption under a wrap key that succeeds undoes what a call of the layer encrypted. -/
theorem exists_call_of_decrypt (haead : P.AeadCorrect) {tried : Set (Attempt KeySource Bytes Bytes Bytes)}
    (hguards : P.cipher.Guards (sealings P calls) tried) {d : Derivation} (hd : d.layer ≠ .combiner)
    {nonce aad body data : Bytes} (htried : wrapAttempt d nonce aad body ∈ tried)
    (hopen : P.decrypt (P.hkdf d.input) nonce body aad = .ok data) :
    P.encrypt (P.hkdf d.input) nonce data aad = .ok body ∧
      ∃ call ∈ calls, call.layer = d.layer ∧ ∃ d', d'.input = d.input ∧ call.Wraps P d' nonce aad data := by
  have hresult := Primitives.result_eq_some (a := wrapAttempt d nonce aad body).mpr hopen
  exact (mem_sealings_wrap hd).mp ((hguards.result_eq_some_iff (haead.undoes fun _ h => h.1) htried).mp hresult)

/-! ### Calls with known keys -/

/-- The keys that a call encrypts under come from some sources. -/
structure SealCall.From (P : Primitives) (call : SealCall) (sources : List KeySource) : Prop where
  wraps : ∀ d nonce aad data, call.Wraps P d nonce aad data → .derived d.input ∈ sources
  draws : ∀ key nonce aad data, call.Draws P key nonce aad data → .drawn key ∈ sources

theorem SealCall.From.mono {call : SealCall} {sources sources' : List KeySource} (h : call.From P sources)
    (hsub : sources ⊆ sources') : call.From P sources' :=
  ⟨fun _ _ _ _ hwraps => hsub (h.wraps _ _ _ _ hwraps), fun _ _ _ _ hdraws => hsub (h.draws _ _ _ _ hdraws)⟩

/-- Calls whose sources give different keys. -/
theorem injOn_of_from {sources : List KeySource} (hcalls : ∀ call ∈ calls, call.From P sources)
    (hkeys : (sources.map P.cipher.key).Nodup) :
    Set.InjOn P.cipher.key (Cipher.sourcesOf (sealings P calls)) := by
  have hform : ∀ s ∈ sealings P calls, s.source ∈ sources := by
    rintro s ⟨-, call, hcall, ⟨d, hsource, hwraps⟩ | ⟨key, hsource, hdraws⟩⟩
    · rw [hsource]
      exact (hcalls call hcall).wraps _ _ _ _ hwraps
    · rw [hsource]
      exact (hcalls call hcall).draws _ _ _ _ hdraws
  rintro _ ⟨s, hs, rfl⟩ _ ⟨s', hs', rfl⟩ hkey
  exact List.inj_on_of_nodup_map hkeys (hform s hs) (hform s' hs') hkey

theorem SealCall.from_wrap {M : RatchetModule} {coins : WrapCoins} {secret : Bytes} {pub : BytesN publicKeyLen}
    {ct : BytesN ciphertextLen} {ss : BytesN 32}
    (hencap : hybridEncap P coins.encap (.bytes pub) hkdfInfo = .ok (ct, ss)) :
    (SealCall.wrap M coins secret pub).From P [.derived (M.wrapKey ss).input] where
  wraps := by
    rintro _ _ _ _ ⟨ct', ss', -, hencap', rfl, -⟩
    cases hencap.symm.trans hencap'
    exact List.mem_singleton_self _
  draws _ _ _ _ hdraws := hdraws.elim

namespace StandIn

def memberCoins : WrapCoins :=
  { encap := { ephemeral := ⟨List.replicate 32 4, rfl⟩, mlkem := ascii "member" }, nonce := .zero 12 }

/-- An epoch wrap in the DM module, for calls of other layers to stand beside. -/
def memberWrap (pub : BytesN publicKeyLen) : SealCall := .wrap .dm memberCoins (BytesN.zero 32).val pub

def memberSecret (pub : BytesN publicKeyLen) : BytesN 32 := sumSecret memberCoins.encap pub hkdfInfo

theorem from_memberWrap (table : List (Bytes × Bytes × Bytes)) (pub : BytesN publicKeyLen) :
    (memberWrap pub).From (primitives sums table) [.derived (Derivation.dmEpochWrap (memberSecret pub)).input] :=
  SealCall.from_wrap (hybridEncap_sums table memberCoins.encap pub hkdfInfo)

end StandIn

end SkPqc
