import SkPqc.Proof.RouteTamper
import SkPqc.Schemes.Lens

/-!
# A chain of relays

Every relay on the way reads the route header and may write another one. The header is a lens of the blob, so the
chain comes down to its last write, and the destination only sees whether that one says what was sealed.
-/

namespace SkPqc
namespace Pqroute

open Wire Pqkem Schemes

section Chain
variable {P : Primitives} {blob blob' : Bytes} {routeHdr last : Json}

/-- The route header of a blob, as the relays read and write it. -/
def headerLens (P : Primitives) : Lens Exc Bytes Json where
  get blob := readRouteHeader P (.bytes blob)
  put blob newRouteHdr := replaceRouteHeader (.bytes blob) newRouteHdr

theorem replaceRouteHeader_eq_ok {newRouteHdr : Json} : replaceRouteHeader (.bytes blob) newRouteHdr = .ok blob' ↔
    ∃ routeBytes sealedInner newBytes hdrLen, splitOuter (.bytes blob) = .ok (routeBytes, sealedInner) ∧
      canonical newRouteHdr = .ok newBytes ∧ packU32 newBytes.length = some hdrLen ∧
      blob' = hdrLen ++ newBytes ++ sealedInner := by
  simp only [replaceRouteHeader, bind_eq_ok, tryExcept_raise_eq_ok, ofOption_eq_ok, Prod.exists]
  constructor
  · rintro ⟨routeBytes, sealedInner, hsplit, newBytes, hnew, hdrLen, hlen, hblob⟩
    exact ⟨routeBytes, sealedInner, newBytes, hdrLen, hsplit, hnew, hlen, (Except.ok.inj hblob).symm⟩
  · rintro ⟨routeBytes, sealedInner, newBytes, hdrLen, hsplit, hnew, hlen, rfl⟩
    exact ⟨routeBytes, sealedInner, hsplit, newBytes, hnew, hdrLen, hlen, rfl⟩

/-- A written header is all that is cut out of the new blob, before the same sealed inner. -/
theorem splitOuter_of_replaceRouteHeader {routeBytes sealedInner newBytes : Bytes}
    (hsplit : splitOuter (.bytes blob) = .ok (routeBytes, sealedInner)) (hnew : canonical last = .ok newBytes)
    (hput : replaceRouteHeader (.bytes blob) last = .ok blob') :
    splitOuter (.bytes blob') = .ok (newBytes, sealedInner) := by
  obtain ⟨_, _, newBytes', hdrLen, hsplit', hnew', hlen, rfl⟩ := replaceRouteHeader_eq_ok.mp hput
  cases hsplit.symm.trans hsplit'
  cases hnew.symm.trans hnew'
  exact splitOuter_append hlen

theorem canonical_sortKeys {v : Json} (hv : v.Plain) : canonical v.sortKeys = canonical v := by
  rw [canonical_eq hv, canonical_eq hv.sortKeys, (Json.dumps_eq_iff hv.sortKeys hv).mpr (Json.same_sortKeys hv)]

/-- Relays read what was written last, up to the order of members. -/
theorem headerLens_lawful (P : Primitives) : (headerLens P).Lawful Json.Plain Json.sortKeys where
  get_put := by
    intro blob blob' v hv hput
    obtain ⟨_, _, _, _, hsplit, -, -, -⟩ := replaceRouteHeader_eq_ok.mp hput
    show readRouteHeader P (.bytes blob') = _
    rw [readRouteHeader, readRouteHeaderWith, splitOuter_of_replaceRouteHeader hsplit (canonical_eq hv) hput, ok_bind]
    exact loadsHeader_dumps P _ _ hv
  put_put := by
    intro blob blob' v w hput
    obtain ⟨_, sealedInner, newBytes, _, hsplit, hnew, -, -⟩ := replaceRouteHeader_eq_ok.mp hput
    show replaceRouteHeader (.bytes blob') w = replaceRouteHeader (.bytes blob) w
    rw [replaceRouteHeader, replaceRouteHeader, splitOuter_of_replaceRouteHeader hsplit hnew hput, hsplit]
    rfl
  put_norm := by
    intro v blob hv
    show replaceRouteHeader (.bytes blob) v.sortKeys = replaceRouteHeader (.bytes blob) v
    rw [replaceRouteHeader, replaceRouteHeader, canonical_sortKeys hv]

/-- After any chain of relays the next one reads the header that was written last, and nobody can tell from the blob
who wrote before. The destination opens the blob if that header says what was sealed, since it is the sealed blob
again, byte for byte; otherwise every open is rejected. -/
theorem openRouted_relayed (hopens : ∀ oqs, P.importOqs = .ok oqs → oqs.Opens) (hkem : P.KemCorrect)
    (haead : P.AeadCorrect) {priv : BytesN privateKeyLen} {pub : BytesN publicKeyLen} (hkey : IsKeypair P priv pub)
    {coins : SealCoins} {innerMetadata : Json} (hmeta : innerMetadata.Plain) (hroute : routeHdr.Plain)
    {content : Bytes} (hseal : sealRouted P coins innerMetadata content (.bytes pub) routeHdr = .ok blob)
    (hdrs : List Json) (hlast : last.Plain) (hchain : (headerLens P).puts blob (hdrs ++ [last]) = .ok blob') :
    readRouteHeader P (.bytes blob') = .ok last.sortKeys ∧
      replaceRouteHeader (.bytes blob') last.sortKeys = .ok blob' ∧
      replaceRouteHeader (.bytes blob) last = .ok blob' ∧
      (Json.Same last routeHdr → blob' = blob ∧ openRouted P (.bytes blob') (.bytes priv) =
        .ok (routeHdr.sortKeys, innerMetadata.sortKeys, content)) ∧
      (¬Json.Same last routeHdr → ∀ key,
        P.AeadAuthentic (SealRoutedMakes P coins innerMetadata content (.bytes pub) routeHdr)
          (OpenTries P blob' key) →
        Rejected (openRouted P (.bytes blob') (.bytes key))) := by
  have hlens := headerLens_lawful P
  have hput : replaceRouteHeader (.bytes blob) last = .ok blob' := hlens.put_of_puts hchain
  have hsame := Json.dumps_eq_iff hlast hroute
  refine ⟨hlens.get_of_puts hlast hchain, hlens.put_get hlast hput, hput, ?_, ?_⟩
  · intro h
    obtain ⟨-, routeBytes, -, -, hdrLen, ct, -, sealedInner, -, hrouteBytes, -, -, -, -, hlen, hblob⟩ :=
      sealRouted_eq_ok.mp hseal
    obtain ⟨_, _, newBytes, hdrLen', hsplit, hnew, hlen', rfl⟩ := replaceRouteHeader_eq_ok.mp hput
    rw [hblob, splitOuter_append hlen] at hsplit
    -- the header is written in the text that was sealed, under the length that text had
    rw [canonical_eq hlast, hsame.mpr h, ← canonical_eq hroute, hrouteBytes] at hnew
    cases hsplit
    cases hnew
    cases hlen.symm.trans hlen'
    rw [← hblob]
    exact ⟨rfl, (openRouted_sealRouted hkem haead hkey hmeta hroute hseal).2⟩
  · intro h key hauth
    refine rejected_of_splitOuter hopens (canonical_eq hroute) hauth fun cut rest hcut heq => h ?_
    obtain ⟨_, _, _, _, hsplit, -, -, -⟩ := replaceRouteHeader_eq_ok.mp hput
    rw [splitOuter_of_replaceRouteHeader hsplit (canonical_eq hlast) hput] at hcut
    obtain rfl : utf8 (Json.dumps last) = cut := (Prod.mk.inj (Except.ok.inj hcut)).1
    exact hsame.mp (utf8_injective (Json.scalar_dumps hlast) (Json.scalar_dumps hroute) heq)

end Chain

namespace TamperExample

open StandIn (aliceCoins)
open Example (routeHdr plain_routeHdr plain_empty coins keys)

theorem puts_back : (headerLens P).puts blob ([routeHdr'] ++ [.obj routeHdr]) = .ok blob := by
  have hlen' : packU32 routeBytes'.length = some (beBytes 4 routeBytes'.length) := if_pos (by decide)
  have hback : replaceRouteHeader (.bytes blob') (.obj routeHdr) = .ok blob :=
    replaceRouteHeader_eq_ok.mpr ⟨routeBytes', sealedInner, routeBytes, _, splitOuter_append hlen',
      canonical_eq plain_routeHdr, if_pos (by decide), rfl⟩
  rw [List.singleton_append, Lens.puts_cons (L := headerLens P) replaceRouteHeader_blob,
    Lens.puts_cons (L := headerLens P) hback, Lens.puts_nil]

theorem puts_once : (headerLens P).puts blob ([] ++ [routeHdr']) = .ok blob' := by
  rw [List.nil_append, Lens.puts_cons (L := headerLens P) replaceRouteHeader_blob, Lens.puts_nil]

theorem not_same : ¬Json.Same routeHdr' (.obj routeHdr) := by
  rw [← Json.dumps_eq_iff plain_routeHdr' plain_routeHdr]
  intro h
  exact canonical_ne (by rw [canonical_eq plain_routeHdr', canonical_eq plain_routeHdr, h])

/-- A header that is rewritten and put back, which the destination does not see; and one that is only rewritten. -/
theorem openRouted_relayed_runs :
    openRouted P (.bytes blob) (.bytes keys.privateKey) =
        .ok (Json.sortKeys (.obj routeHdr), Json.sortKeys (.obj []), ascii "hi") ∧
      readRouteHeader P (.bytes blob') = .ok routeHdr'.sortKeys ∧
      Rejected (openRouted P (.bytes blob') (.bytes keys.privateKey)) := by
  have hkem : P.KemCorrect := StandIn.kemCorrect _
  have haead : P.AeadCorrect := StandIn.aeadCorrect _ _
  have hkey : IsKeypair P keys.privateKey keys.publicKey := StandIn.isKeypair _ _ aliceCoins
  have htamper : blob' ∈ Tampered routeBytes sealedInner :=
    replaceRouteHeader_mem_tampered (if_pos (by decide)) (by
      rw [← show canonical (.obj routeHdr) = .ok routeBytes from canonical_eq plain_routeHdr]
      exact canonical_ne) replaceRouteHeader_blob
  obtain ⟨-, -, -, hback, -⟩ := openRouted_relayed opens hkem haead hkey plain_empty plain_routeHdr sealRouted_blob
    [routeHdr'] plain_routeHdr puts_back
  obtain ⟨hread, -, -, -, hrejected⟩ := openRouted_relayed opens hkem haead hkey plain_empty plain_routeHdr
    sealRouted_blob [] plain_routeHdr' puts_once
  have hsame : Json.Same (.obj routeHdr) (.obj routeHdr) := (Json.dumps_eq_iff plain_routeHdr plain_routeHdr).mp rfl
  exact ⟨(hback hsame).2, hread, hrejected not_same _ (aeadAuthentic htamper _)⟩

end TamperExample

end Pqroute
end SkPqc
