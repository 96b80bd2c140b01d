import SkPqc.Proof.ProvenanceRouted

/-!
# Each key encrypts once

AES-GCM loses everything when a key meets a nonce twice. No layer relies on its nonces for that: a wrap key comes
from a secret that one call has encapsulated, and a message key is drawn by one call. So over any calls of all layers
each key is used on one nonce, one AAD and one plaintext.
-/

namespace SkPqc

open Wire Pqkem Schemes

section KeyUse
variable {P : Primitives} {calls : List SealCall} {call : SealCall}

namespace SealCall

/-- The call has encapsulated the secret. -/
def Shares (P : Primitives) (call : SealCall) (secret : Bytes) : Prop :=
  ∃ d nonce aad data, call.Wraps P d nonce aad data ∧ d.input.ikm = secret

/-- What a call encrypts under a wrap key, it encrypts under all of them. -/
theorem wraps_unique {d d' : Derivation} {nonce nonce' aad aad' data data' : Bytes}
    (h : call.Wraps P d nonce aad data) (h' : call.Wraps P d' nonce' aad' data') :
    nonce = nonce' ∧ aad = aad' ∧ data = data' := by
  cases call with
  | oneShot coins plaintext bundle sender recipient =>
    obtain ⟨_, _, _, -, -, haad, -, -, rfl, rfl⟩ := h
    obtain ⟨_, _, _, -, -, haad', -, -, rfl, rfl⟩ := h'
    exact ⟨rfl, Except.ok.inj (haad.symm.trans haad'), rfl⟩
  | fanout coins body recipients sender recipientId =>
    obtain ⟨_, _, _, -, -, rfl, rfl, rfl⟩ := h
    obtain ⟨_, _, _, -, -, rfl, rfl, rfl⟩ := h'
    exact ⟨rfl, rfl, rfl⟩
  | routed coins innerMetadata content pub routeHdr =>
    obtain ⟨_, metaBytes, _, _, _, hroute, hmeta, hlen, -, rfl, -, rfl, rfl⟩ := h
    obtain ⟨_, metaBytes', _, _, _, hroute', hmeta', hlen', -, rfl, -, rfl, rfl⟩ := h'
    cases hroute.symm.trans hroute'
    cases hmeta.symm.trans hmeta'
    cases hlen.symm.trans hlen'
    exact ⟨rfl, rfl, rfl⟩
  | wrap M coins secret pub =>
    obtain ⟨_, _, -, -, -, rfl, rfl, rfl⟩ := h
    obtain ⟨_, _, -, -, -, rfl, rfl, rfl⟩ := h'
    exact ⟨rfl, rfl, rfl⟩

theorem draws_unique {key key' nonce nonce' aad aad' data data' : Bytes} (h : call.Draws P key nonce aad data)
    (h' : call.Draws P key' nonce' aad' data') : nonce = nonce' ∧ aad = aad' ∧ data = data' := by
  cases call with
  | oneShot => exact h.elim
  | routed => exact h.elim
  | wrap => exact h.elim
  | fanout =>
    obtain ⟨_, hkids, haad, -, rfl, rfl⟩ := h
    obtain ⟨_, hkids', haad', -, rfl, rfl⟩ := h'
    cases hkids.symm.trans hkids'
    exact ⟨rfl, Except.ok.inj (haad.symm.trans haad'), rfl⟩

end SealCall

/-- No two calls have encapsulated one secret or drawn one message key. -/
structure Fresh (P : Primitives) (calls : List SealCall) : Prop where
  secrets : ∀ call ∈ calls, ∀ call' ∈ calls, ∀ secret, call.Shares P secret → call'.Shares P secret → call = call'
  messageKeys : ∀ call ∈ calls, ∀ call' ∈ calls, ∀ key, (∃ nonce aad data, call.Draws P key nonce aad data) →
    (∃ nonce aad data, call'.Draws P key nonce aad data) → call = call'

/-- Two encryptions with a key from one source are one. -/
theorem Fresh.injOn_source (hfresh : Fresh P calls) : Set.InjOn (fun s => s.source) (sealings P calls) := by
  intro s hs s' hs' hsource
  dsimp only at hsource
  obtain ⟨hencrypt, call, hcall, hmakes⟩ := hs
  obtain ⟨hencrypt', call', hcall', hmakes'⟩ := hs'
  have hsame : s.nonce = s'.nonce ∧ s.aad = s'.aad ∧ s.data = s'.data := by
    rcases hmakes with ⟨d, hd, hwraps⟩ | ⟨key, hkey, hdraws⟩ <;>
    rcases hmakes' with ⟨d', hd', hwraps'⟩ | ⟨key', hkey', hdraws'⟩
    · have hinput : d.input = d'.input := KeySource.derived.inj (hd.symm.trans (hsource.trans hd'))
      obtain rfl := hfresh.secrets call hcall call' hcall' d.input.ikm ⟨d, _, _, _, hwraps, rfl⟩
        ⟨d', _, _, _, hwraps', by rw [hinput]⟩
      exact SealCall.wraps_unique hwraps hwraps'
    · cases hd.symm.trans (hsource.trans hkey')
    · cases hkey.symm.trans (hsource.trans hd')
    · obtain rfl : key = key' := KeySource.drawn.inj (hkey.symm.trans (hsource.trans hkey'))
      obtain rfl := hfresh.messageKeys call hcall call' hcall' key ⟨_, _, _, hdraws⟩ ⟨_, _, _, hdraws'⟩
      exact SealCall.draws_unique hdraws hdraws'
  obtain ⟨hnonce, haad, hdata⟩ := hsame
  have hbody : s.body = s'.body := by
    rw [Primitives.Encrypts, hsource, hnonce, haad, hdata] at hencrypt
    exact Except.ok.inj (hencrypt.symm.trans hencrypt')
  exact Sealing.ext hsource hnonce haad hbody hdata

/-- Over any sealing calls of all layers each AES-GCM key encrypts once: no key that is derived or drawn meets two
nonces, two AADs or two plaintexts, and so no nonce twice. -/
theorem injOn_key_of_fresh (hfresh : Fresh P calls)
    (hkeys : Set.InjOn P.cipher.key (Cipher.sourcesOf (sealings P calls))) :
    Set.InjOn (fun s => P.cipher.key s.source) (sealings P calls) :=
  hkeys.comp hfresh.injOn_source fun s hs => ⟨s, hs, rfl⟩

end KeyUse

namespace Pqdm.FanoutExample

/-- The three secrets that the fanout seal and the wrap have encapsulated differ. -/
theorem fresh : Fresh P₁ calls := by
  have hfanout : ∀ {shared}, call.Shares P₁ shared → shared = (secret alice).val ∨ shared = (secret bob).val := by
    rintro _ ⟨_, _, _, _, ⟨_, _, _, hencap, rfl, -⟩, rfl⟩
    obtain ⟨keys, rfl | rfl, -, -, rfl⟩ := of_encapsulates _ _ _ _ hencap
    · exact .inl rfl
    · exact .inr rfl
  have hmember : ∀ {shared}, (StandIn.memberWrap alice.publicKey).Shares P₁ shared →
      shared = (StandIn.memberSecret alice.publicKey).val := by
    rintro _ ⟨_, _, _, _, ⟨_, _, -, hencap, rfl, -⟩, rfl⟩
    cases (StandIn.hybridEncap_sums _ _ _ _).symm.trans hencap
    rfl
  have hne : (StandIn.memberSecret alice.publicKey).val ≠ (secret alice).val ∧
      (StandIn.memberSecret alice.publicKey).val ≠ (secret bob).val := by decide
  have hapart : ∀ {shared}, (StandIn.memberWrap alice.publicKey).Shares P₁ shared → ¬call.Shares P₁ shared := by
    intro shared hshared hcall
    obtain rfl := hmember hshared
    rcases hfanout hcall with hsame | hsame
    · exact hne.1 hsame
    · exact hne.2 hsame
  constructor
  · intro c hc c' hc' shared h h'
    rcases List.mem_pair.mp hc with rfl | rfl <;> rcases List.mem_pair.mp hc' with rfl | rfl
    · rfl
    · exact absurd h' (hapart h)
    · exact absurd h (hapart h')
    · rfl
  · rintro c hc c' hc' _ ⟨_, _, _, h⟩ ⟨_, _, _, h'⟩
    rcases List.mem_pair.mp hc with rfl | rfl
    · exact h.elim
    · rcases List.mem_pair.mp hc' with rfl | rfl
      · exact h'.elim
      · rfl

end Pqdm.FanoutExample

/-- One fanout token, whose nonce serves the body and both slots, and an epoch wrap with the same nonce: they are under
four keys. -/
theorem injOn_key_of_fresh_run :
    Set.InjOn (fun s => Pqdm.FanoutExample.P₁.cipher.key s.source)
      (sealings Pqdm.FanoutExample.P₁ Pqdm.FanoutExample.calls) :=
  injOn_key_of_fresh Pqdm.FanoutExample.fresh Pqdm.FanoutExample.injOn_key

end SkPqc
