import SkPqc.Proof.FanoutTamper

/-!
# How much of a slot region an open reads

`openMulti` leaves the scan at the first slot with its key id. What stands behind that slot is never looked
at, so a body says nothing about it: a device gets a body from a token with a broken slot region only if its
own slot stands in front of the break, and if that slot was sealed for it, it does (`openMulti_regionScans_iff`).
A device whose slot stands behind the break gets `None` from the same token.
-/

namespace SkPqc
namespace Pqdm

open Wire Pqkem

/-- The slot region of the token scans to its end without an error. -/
def RegionScans (token : Str) : Prop :=
  ∃ header region blob, Carries token header region blob ∧ (pqdm2IterSlots region).2 = none

/-- The slot region is slots of other key ids, then the device's slot, and then bytes that are not a list of
slots. -/
def StandsBeforeBreak (token myKeyId : Str) : Prop :=
  ∃ (header : Bytes) (front : List RawSlot) (slot : RawSlot) (rest blob : Bytes),
    Carries token header (front.flatMap RawSlot.pack ++ (slot.pack ++ rest)) blob ∧
    (∀ s ∈ front, s.view.keyId ≠ myKeyId) ∧ slot.view.keyId = myKeyId ∧ ¬Complete rest

/-- The slot that the key id finds in the region, if it finds one, is the one it finds among the sealed slots. -/
def FindsSealed (region : Bytes) (slots : List PackedSlot) (myKeyId : Str) : Prop :=
  ∀ slot, (pqdm2IterSlots region).1.find? (fun s => s.keyId = myKeyId) = some slot →
    (slots.map PackedSlot.view).find? (fun s => s.keyId = myKeyId) = some slot

theorem pqdm2IterSlots_split (front : List RawSlot) (slot : RawSlot) (rest : Bytes) :
    pqdm2IterSlots (front.flatMap RawSlot.pack ++ (slot.pack ++ rest))
      = (front.map RawSlot.view ++ slot.view :: (pqdm2IterSlots rest).1, (pqdm2IterSlots rest).2) := by
  have hone : slot.pack = [slot].flatMap RawSlot.pack := by rw [List.flatMap_singleton]
  rw [pqdm2IterSlots_flatMap_append, hone, pqdm2IterSlots_flatMap_append]
  rfl

theorem find?_split {front : List RawSlot} {slot : RawSlot} {myKeyId : Str}
    (hfront : ∀ s ∈ front, s.view.keyId ≠ myKeyId) (hslot : slot.view.keyId = myKeyId) (rest : Bytes) :
    (pqdm2IterSlots (front.flatMap RawSlot.pack ++ (slot.pack ++ rest))).1.find? (fun s => s.keyId = myKeyId)
      = some slot.view := by
  rw [pqdm2IterSlots_split, List.find?_append, List.find?_eq_none.mpr, Option.none_or]
  · exact List.find?_cons_of_pos (by simpa using hslot)
  · intro view hview
    obtain ⟨s, hs, rfl⟩ := List.mem_map.mp hview
    simpa using hfront s hs

/-- The slot that a device finds stands behind slots of other key ids. -/
theorem exists_split {region : Bytes} {myKeyId : Str} {view : Slot}
    (h : (pqdm2IterSlots region).1.find? (fun s => s.keyId = myKeyId) = some view) :
    ∃ (front : List RawSlot) (slot : RawSlot) (rest : Bytes),
      region = front.flatMap RawSlot.pack ++ (slot.pack ++ rest) ∧
      (∀ s ∈ front, s.view.keyId ≠ myKeyId) ∧ slot.view.keyId = myKeyId ∧ view = slot.view := by
  obtain ⟨slots, tail, stop, rfl, htail⟩ := exists_rawSlots region
  rw [pqdm2IterSlots_append slots htail, List.find?_map] at h
  obtain ⟨slot, hslot, rfl⟩ := Option.map_eq_some_iff.mp h
  obtain ⟨hkid, front, back, rfl, hfront⟩ := List.find?_eq_some_iff_append.mp hslot
  refine ⟨front, slot, back.flatMap RawSlot.pack ++ tail, ?_, ?_, by simpa using hkid, rfl⟩
  · rw [List.flatMap_append, List.flatMap_cons, List.append_assoc, List.append_assoc]
  · intro s hs
    simpa using hfront s hs

/-- A device whose slot does not stand in front of a break gets a body only if the whole region scans. -/
theorem regionScans_of_openMulti {P : Primitives} {token myKeyId myPrivateHex sender recipientId : Str} {body : Bytes}
    (hnot : ¬StandsBeforeBreak token myKeyId)
    (hopen : openMulti P token myKeyId myPrivateHex sender recipientId = .ok (some body)) : RegionScans token := by
  obtain ⟨header, region, blob, -, -, view, -, -, htoken, -, -, hfind, -⟩ := openMulti_eq_some.mp hopen
  obtain ⟨front, slot, rest, rfl, hfront, hslot, rfl⟩ := exists_split hfind
  refine ⟨header, _, blob, htoken, ?_⟩
  rw [pqdm2IterSlots_split, pqdm2IterSlots_snd_eq_none_iff]
  by_contra hrest
  exact hnot ⟨header, front, slot, rest, blob, htoken, hfront, hslot, hrest⟩

/-- A region that scans has no break. -/
theorem RegionScans.not_standsBeforeBreak {token : Str} (h : RegionScans token) (myKeyId : Str) :
    ¬StandsBeforeBreak token myKeyId := by
  rintro ⟨_, front, slot, rest, _, htoken, -, -, hrest⟩
  obtain ⟨_, _, _, htoken', hscan⟩ := h
  obtain ⟨-, rfl, -⟩ := htoken.unique htoken'
  rw [pqdm2IterSlots_split] at hscan
  exact hrest ((pqdm2IterSlots_snd_eq_none_iff rest).mp hscan)

/-- A sealed body is returned to the device that finds its slot, whatever stands around the slot. -/
theorem openMulti_of_standsBeforeBreak {P : Primitives} (hkem : P.KemCorrect) (haead : P.AeadCorrect)
    {coins : SealMultiCoins} {body : Bytes} {recipients : List Recipient} {sender recipientId : Str} {e : Envelope}
    (h : Seals P coins body recipients sender recipientId e) {myKeyId myPrivateHex : Str}
    (hadmits : Admits P recipients myKeyId myPrivateHex) {region : Bytes} (hfinds : FindsSealed region e.slots myKeyId)
    (hbreak : StandsBeforeBreak (pqdm2Token e.header region (e.nonce ++ e.ct)) myKeyId) :
    openMulti P (pqdm2Token e.header region (e.nonce ++ e.ct)) myKeyId myPrivateHex sender recipientId
      = .ok (some body) := by
  obtain ⟨header, front, slot, rest, blob, htoken, hfront, hslot, -⟩ := hbreak
  have hcarries := carries_pqdm2Token e.header region (e.nonce ++ e.ct)
  obtain ⟨rfl, rfl, rfl⟩ := hcarries.unique htoken
  have hfind := find?_split hfront hslot rest
  refine Eq.trans (openMulti_congr hcarries (carries_pqdm2Token _ _ _) rfl ?_) (h.openMulti_admits hkem haead hadmits)
  rw [hfind, PackedSlot.pqdm2IterSlots_flatMap, hfinds _ hfind]

/-- Every device whose slot does not stand in front of a break gets a body for slot regions only that scan to their
end. On a sealed token whose region was rewritten in any way that leaves an admitted device its own slot, or none, no
other device does. -/
theorem openMulti_regionScans_iff (P : Primitives) :
    (∀ token myKeyId, ¬StandsBeforeBreak token myKeyId → ∀ myPrivateHex sender recipientId body,
      openMulti P token myKeyId myPrivateHex sender recipientId = .ok (some body) → RegionScans token) ∧
    (P.KemCorrect → P.AeadCorrect → ∀ coins body recipients sender recipientId, ∀ e : Envelope,
      sealMulti P coins body recipients sender recipientId = .ok e.token →
      ∀ myKeyId myPrivateHex, Admits P recipients myKeyId myPrivateHex →
      ∀ region, FindsSealed region e.slots myKeyId →
      ∀ token, token = pqdm2Token e.header region (e.nonce ++ e.ct) →
        ((∀ body', openMulti P token myKeyId myPrivateHex sender recipientId = .ok (some body') → RegionScans token) ↔
          ¬StandsBeforeBreak token myKeyId)) := by
  constructor
  · intro token myKeyId hnot _ _ _ _ hopen
    exact regionScans_of_openMulti hnot hopen
  · rintro hkem haead coins body recipients sender recipientId e hseal myKeyId myPrivateHex hadmits region hfinds _ rfl
    constructor
    · intro hscans hbreak
      have hopen := openMulti_of_standsBeforeBreak hkem haead (seals_of_token haead hseal) hadmits hfinds hbreak
      exact (hscans body hopen).not_standsBeforeBreak myKeyId hbreak
    · intro hnot _ hopen
      exact regionScans_of_openMulti hnot hopen

/-! ### Runs -/

namespace FanoutExample

open StandIn (aliceCoins bobCoins)

/-- A length byte that no slot follows. -/
theorem stops_zero : Stops pqdm2NextSlot [0] (some truncatedSlot) := by
  have hne : [(0 : UInt8)] ≠ [] := List.cons_ne_nil _ _
  rcases cut_or_fails hne with ⟨slot, rest, hcut⟩ | hfails
  · have hlen := congrArg List.length hcut
    have hpos : 0 < pqdm2WrappedKLen := by decide
    rw [List.length_append, slot.length_pack, List.length_singleton] at hlen
    omega
  · exact .failed hne hfails

theorem pqdm2IterSlots_broken (slot : PackedSlot) :
    pqdm2IterSlots (slot.pack ++ [0]) = ([slot.view], some truncatedSlot) := by
  have hscan := pqdm2IterSlots_append [slot.raw] stops_zero
  rwa [List.flatMap_singleton, List.map_singleton, PackedSlot.view_raw] at hscan

/-- The token with bob's slot cut off behind its first byte. -/
def cutToken (e : Envelope) (slot : PackedSlot) : Str := pqdm2Token e.header (slot.pack ++ [0]) (e.nonce ++ e.ct)

theorem carries_cutToken (e : Envelope) (slot : PackedSlot) :
    Carries (cutToken e slot) e.header (slot.pack ++ [0]) (e.nonce ++ e.ct) := carries_pqdm2Token _ _ _

theorem not_regionScans_cutToken (e : Envelope) (slot : PackedSlot) : ¬RegionScans (cutToken e slot) := by
  rintro ⟨_, _, _, htoken, hscan⟩
  obtain ⟨-, rfl, -⟩ := (carries_cutToken e slot).unique htoken
  rw [pqdm2IterSlots_broken] at hscan
  cases hscan

theorem find?_broken {slot : PackedSlot} {myKeyId : Str} :
    (pqdm2IterSlots (slot.pack ++ [0])).1.find? (fun s => s.keyId = myKeyId)
      = if slot.keyId = myKeyId then some slot.view else none := by
  rw [pqdm2IterSlots_broken]
  by_cases hkid : slot.keyId = myKeyId
  · rw [if_pos hkid]
    exact List.find?_cons_of_pos (decide_eq_true hkid)
  · rw [if_neg hkid]
    exact List.find?_cons_of_neg fun hview => hkid (of_decide_eq_true hview)

/-- The first slot is found in the cut token as in the sealed one, and no other slot is. -/
theorem findsSealed_cut {slot : PackedSlot} {rest : List PackedSlot} (myKeyId : Str) :
    FindsSealed (slot.pack ++ [0]) (slot :: rest) myKeyId := by
  intro view hview
  rw [find?_broken] at hview
  by_cases hkid : slot.keyId = myKeyId
  · rw [if_pos hkid] at hview
    cases hview
    exact List.find?_cons_of_pos (decide_eq_true hkid)
  · rw [if_neg hkid] at hview
    cases hview

theorem standsBeforeBreak_cutToken_iff {e : Envelope} {slot : PackedSlot} {myKeyId : Str} :
    StandsBeforeBreak (cutToken e slot) myKeyId ↔ slot.keyId = myKeyId := by
  constructor
  · rintro ⟨_, front, slot', rest, _, htoken, hfront, hslot, -⟩
    obtain ⟨-, hregion, -⟩ := (carries_cutToken e slot).unique htoken
    have hfind := find?_split hfront hslot rest
    rw [← hregion, find?_broken] at hfind
    by_contra hkid
    rw [if_neg hkid] at hfind
    cases hfind
  · intro hkid
    refine ⟨e.header, [], slot.raw, [0], _, carries_cutToken e slot, by simp, hkid ▸ slot.view_raw ▸ rfl, ?_⟩
    rw [← pqdm2IterSlots_snd_eq_none_iff]
    have hstop := pqdm2IterSlots_append [] stops_zero
    rw [List.flatMap_nil, List.nil_append] at hstop
    rw [hstop]
    exact Option.some_ne_none _

theorem not_standsBeforeBreak_laptop {e : Envelope} {slot : PackedSlot} (hkid : slot.keyId = str "phone") :
    ¬StandsBeforeBreak (cutToken e slot) (str "laptop") := by
  rw [standsBeforeBreak_cutToken_iff, hkid]
  decide

theorem exists_cut : ∃ (e : Envelope) (slot : PackedSlot) (rest : List PackedSlot),
    sealMulti P₂ coins (ascii "hi") distinct (str "carol") (str "team") = .ok e.token ∧ e.slots = slot :: rest ∧
      slot.keyId = str "phone" := by
  obtain ⟨e, hseal⟩ := exists_distinct
  obtain ⟨slot, rest, hslots, hsealed⟩ := exists_slots (seals hseal)
  exact ⟨e, slot, rest, hseal, hslots, (Option.some.inj hsealed.1).symm⟩

/-- The sealed token scans. In the cut token alice's slot stands in front of the break, so that she may get a body;
bob's does not, so that he gets none. -/
theorem openMulti_regionScans_runs : ∃ (e : Envelope) (slot : PackedSlot),
    sealMulti P₂ coins (ascii "hi") distinct (str "carol") (str "team") = .ok e.token ∧ RegionScans e.token ∧
      (¬∀ body, openMulti P₂ (cutToken e slot) (str "phone") (hex alice.privateKey) (str "carol") (str "team")
        = .ok (some body) → RegionScans (cutToken e slot)) ∧
      ∀ body, openMulti P₂ (cutToken e slot) (str "laptop") (hex bob.privateKey) (str "carol") (str "team")
        ≠ .ok (some body) := by
  obtain ⟨e, slot, rest, hseal, hslots, hkid⟩ := exists_cut
  have hkem : P₂.KemCorrect := StandIn.kemCorrect _
  have haead : P₂.AeadCorrect := StandIn.aeadCorrect _ _
  obtain ⟨henough, hexact⟩ := openMulti_regionScans_iff P₂
  refine ⟨e, slot, hseal, ?_, ?_, ?_⟩
  · have hscans : RegionScans e.token := ⟨_, _, _, carries_pqdm2Token _ _ _, by
      rw [PackedSlot.pqdm2IterSlots_flatMap]⟩
    exact henough e.token (str "phone") (hscans.not_standsBeforeBreak _) _ _ _ _
      ((seals hseal).openMulti_admits hkem haead admits_alice)
  · have hiff := hexact hkem haead _ _ _ _ _ e hseal _ _ admits_alice _ (hslots ▸ findsSealed_cut _)
      (cutToken e slot) rfl
    rw [hiff, not_not]
    exact standsBeforeBreak_cutToken_iff.mpr hkid
  · intro body hopen
    exact not_regionScans_cutToken e slot (henough _ _ (not_standsBeforeBreak_laptop hkid) _ _ _ _ hopen)

/-- Bob's slot cut off behind its first byte: alice opens the token, and for bob it is malformed. -/
theorem exists_broken_open : ∃ (e : Envelope) (slot : PackedSlot) (rest : List PackedSlot),
    sealMulti P₂ coins (ascii "hi") distinct (str "carol") (str "team") = .ok e.token ∧ e.slots = slot :: rest ∧
      ¬RegionScans (cutToken e slot) ∧
      openMulti P₂ (cutToken e slot) (str "phone") (hex alice.privateKey) (str "carol") (str "team")
        = .ok (some (ascii "hi")) ∧
      openMulti P₂ (cutToken e slot) (str "laptop") (hex bob.privateKey) (str "carol") (str "team") = .ok none := by
  obtain ⟨e, slot, rest, hseal, hslots, hkid⟩ := exists_cut
  refine ⟨e, slot, rest, hseal, hslots, not_regionScans_cutToken e slot, ?_, ?_⟩
  · exact openMulti_of_standsBeforeBreak (StandIn.kemCorrect _) (StandIn.aeadCorrect _ _) (seals hseal) admits_alice
      (hslots ▸ findsSealed_cut _) (standsBeforeBreak_cutToken_iff.mpr hkid)
  · -- bob's scan goes past alice's slot
    obtain ⟨o, ho⟩ := openMulti_returns P₂ (cutToken e slot) (str "laptop") (hex bob.privateKey) (str "carol")
      (str "team")
    cases o with
    | none => exact ho
    | some body =>
      exact absurd (regionScans_of_openMulti (not_standsBeforeBreak_laptop hkid) ho) (not_regionScans_cutToken e slot)

end FanoutExample

end Pqdm
end SkPqc
