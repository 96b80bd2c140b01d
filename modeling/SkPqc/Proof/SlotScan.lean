import SkPqc.Proof.FanoutTamper

/-!
# The scan of a slot region

`_pqdm2_iter_slots` as the loop it is (`Walk`), on any bytes. Each iteration reads inside the region
(`checkedNextSlot_eq`) and either comes to the end of a slot or finds that the region is cut off
(`pqdm2NextSlot_cases`), so the loop comes to its end on every region, and the slots it yields stand end to
end at the front of it (`cutsFront`). Whatever `sealMulti` packs is yielded as it was packed
(`pqdm2IterSlots_inverts`).
-/

namespace SkPqc
namespace Pqdm

open Wire Pqkem

/-! ### One iteration -/

/-- `b[i:j]`, where all of it lies inside `b`. -/
def sliceInside (b : Bytes) (i j : Nat) : Option Bytes := if i ≤ j ∧ j ≤ b.length then some (slice b i j) else none

/-- One iteration of `_pqdm2_iter_slots` with its reads checked: `none` where it reads outside the region. -/
def checkedNextSlot (slots : Bytes) (off : Nat) : Option (Py (Slot × Nat)) := do
  let kidLen ← slots[off]?
  let off := off + 1
  let endKid := off + kidLen.toNat
  let endEncap := endKid + ciphertextLen
  let endWrap := endEncap + pqdm2WrappedKLen
  if endWrap > slots.length then return raise .pqDmFormatError [.lit "truncated pqdm2 slot"]
  let kid ← sliceInside slots off endKid
  let encap ← sliceInside slots endKid endEncap
  let wrappedK ← sliceInside slots endEncap endWrap
  return .ok ({ keyId := decodeUtf8Replace kid, encap := encap, wrappedK := wrappedK }, endWrap)

/-- Inside the region no read goes outside it. -/
theorem checkedNextSlot_eq {region : Bytes} {off : Nat} (hoff : off < region.length) :
    checkedNextSlot region off = some (pqdm2NextSlot region off) := by
  have hget : region[off]? = some (region.getD off 0) := by
    rw [List.getD_eq_getElem?_getD, List.getElem?_eq_getElem hoff, Option.getD_some]
  simp only [checkedNextSlot, pqdm2NextSlot, hget, Option.bind_eq_bind, Option.bind_some]
  split
  · rfl
  · simp only [sliceInside]
    rw [if_pos (by omega), if_pos (by omega), if_pos (by omega)]
    rfl

/-- An iteration comes to the end of the slot that stands at the offset, or finds that it is cut off. -/
theorem pqdm2NextSlot_cases {region : Bytes} {off : Nat} (hoff : off < region.length) :
    (∃ slot : RawSlot, pqdm2NextSlot region off = .ok (slot.view, off + slot.pack.length) ∧
      off + slot.pack.length ≤ region.length ∧ slice region off (off + slot.pack.length) = slot.pack) ∨
    pqdm2NextSlot region off = .error truncatedSlot := by
  obtain ⟨before, after, rfl, rfl⟩ : ∃ before after, region = before ++ after ∧ before.length = off :=
    ⟨region.take off, region.drop off, (List.take_append_drop off region).symm, List.length_take_of_le hoff.le⟩
  have hne : after ≠ [] := by
    rintro rfl
    simp at hoff
  rcases cut_or_fails hne with ⟨slot, rest, rfl⟩ | hfails
  · refine .inl ⟨slot, slot.readsPacked.2 before rest, ?_, ?_⟩
    · simp only [List.length_append]
      omega
    · rw [← List.append_assoc]
      exact slice_append_append rfl rfl
  · exact .inr (hfails before)

theorem advances (region : Bytes) : Advances (pqdm2NextSlot region) region.length := by
  intro off hoff slot off' hnext
  rcases pqdm2NextSlot_cases hoff with ⟨raw, hraw, hle, -⟩ | hfails
  · cases hraw.symm.trans hnext
    have hpos : 0 < raw.pack.length := List.length_pos_iff.mpr raw.pack_ne_nil
    omega
  · cases hfails.symm.trans hnext

/-! ### The loop -/

/-- The spans are slots that stand end to end at the front of the region, up to the offset `fin`. -/
structure CutsFront (region : Bytes) (spans : List (Span Slot)) (fin : Nat) : Prop where
  slot : ∀ s ∈ spans, ∃ raw : RawSlot, s.bytes region = raw.pack ∧ s.item = raw.view
  inside : ∀ s ∈ spans, s.start < s.stop ∧ s.stop ≤ region.length
  consecutive : 0 :: spans.map Span.stop = spans.map Span.start ++ [fin]
  disjoint : spans.Pairwise fun s t => s.stop ≤ t.start
  front : (spans.map (Span.bytes region)).flatten = region.take fin
  fin_le : fin ≤ region.length

variable {region : Bytes} {spans : List (Span Slot)} {fin : Nat} {stop : Option Exc}

theorem cutsFront (h : Walk (pqdm2NextSlot region) region.length 0 spans fin stop) : CutsFront region spans fin where
  slot s hs := by
    obtain ⟨hoff, hnext⟩ := h.exists_step hs
    rcases pqdm2NextSlot_cases hoff with ⟨raw, hraw, -, hbytes⟩ | hfails
    · have hread := Except.ok.inj (hraw.symm.trans hnext)
      have hview : raw.view = s.item := congrArg Prod.fst hread
      have hstop : s.start + raw.pack.length = s.stop := congrArg Prod.snd hread
      rw [hstop] at hbytes
      exact ⟨raw, hbytes, hview.symm⟩
    · cases hfails.symm.trans hnext
  inside s hs := by
    obtain ⟨hoff, hnext⟩ := h.exists_step hs
    exact advances region _ hoff _ _ hnext
  consecutive := h.consecutive
  disjoint := h.pairwise (advances region)
  front := h.flatten_bytes region (advances region) (Nat.zero_le _)
  fin_le := (h.bounds (advances region) (Nat.zero_le _)).2

/-- The only failure is a slot that is cut off. -/
theorem stop_eq_truncatedSlot {e : Exc} (h : Walk (pqdm2NextSlot region) region.length 0 spans fin (some e)) :
    e = truncatedSlot := by
  obtain ⟨hoff, hfailed⟩ := h.exists_failure
  rcases pqdm2NextSlot_cases hoff with ⟨raw, hraw, -⟩ | hfails
  · cases hraw.symm.trans hfailed
  · exact (Except.error.inj (hfails.symm.trans hfailed)).symm

theorem exists_slotWalk (region : Bytes) : ∃ spans fin,
    Walk (pqdm2NextSlot region) region.length 0 spans fin (pqdm2IterSlots region).2 := by
  obtain ⟨spans, fin, hwalk, -⟩ := exists_walk (advances region) region.length (Nat.le_add_left _ 0)
  exact ⟨spans, fin, hwalk⟩

theorem pqdm2IterSlots_eq_of_walk (h : Walk (pqdm2NextSlot region) region.length 0 spans fin stop) :
    pqdm2IterSlots region = (spans.map Span.item, stop) :=
  h.scan_eq (advances region) region.length (Nat.le_add_left _ 0)

/-- A region is cut off exactly when it is something else than slots. -/
theorem pqdm2IterSlots_snd_eq_truncatedSlot_iff (region : Bytes) :
    (pqdm2IterSlots region).2 = some truncatedSlot ↔ ¬Complete region := by
  rw [← pqdm2IterSlots_snd_eq_none_iff]
  obtain ⟨spans, fin, hwalk⟩ := exists_slotWalk region
  cases hstop : (pqdm2IterSlots region).2 with
  | none => simp
  | some e =>
    rw [hstop] at hwalk
    simp [stop_eq_truncatedSlot hwalk]

/-- Slots are scanned as `sealMulti` packs them. On any bytes the loop comes to its end without a read outside
them; what it yields is slots that stand end to end at the front, and it fails exactly when the bytes are not a
list of slots. -/
theorem pqdm2IterSlots_inverts :
    (∀ slots : List PackedSlot, pqdm2IterSlots (slots.flatMap PackedSlot.pack) = (slots.map PackedSlot.view, none)) ∧
    (∀ P : Primitives, P.AeadCorrect → ∀ (coins : SealMultiCoins) (recipients : List Recipient) (region : Bytes),
      sealSlots P coins 0 recipients = .ok region → ∃ slots : List PackedSlot,
        region = slots.flatMap PackedSlot.pack ∧ List.Forall₂ (SealedFor P coins recipients) recipients slots) ∧
    ∀ region : Bytes,
      (∀ off < region.length, checkedNextSlot region off = some (pqdm2NextSlot region off)) ∧
      (∃ spans fin stop, Walk (pqdm2NextSlot region) region.length 0 spans fin stop) ∧
      (∀ spans fin stop, Walk (pqdm2NextSlot region) region.length 0 spans fin stop →
        pqdm2IterSlots region = (spans.map Span.item, stop) ∧ CutsFront region spans fin) ∧
      ((pqdm2IterSlots region).2 = none ↔ Complete region) ∧
      ((pqdm2IterSlots region).2 = some truncatedSlot ↔ ¬Complete region) := by
  refine ⟨PackedSlot.pqdm2IterSlots_flatMap, ?_, ?_⟩
  · intro P haead coins recipients region hregion
    exact exists_slots haead recipients rfl hregion
  · intro region
    obtain ⟨spans, fin, hwalk⟩ := exists_slotWalk region
    refine ⟨fun off hoff => checkedNextSlot_eq hoff, ⟨spans, fin, _, hwalk⟩, ?_,
      pqdm2IterSlots_snd_eq_none_iff region, pqdm2IterSlots_snd_eq_truncatedSlot_iff region⟩
    intro spans fin stop h
    exact ⟨pqdm2IterSlots_eq_of_walk h, cutsFront h⟩

namespace FanoutExample

/-- The slots packed for alice and bob, and their scan. -/
theorem exists_scanned : ∃ (region : Bytes) (slots : List PackedSlot),
    sealSlots P₂ coins 0 distinct = .ok region ∧ slots.map PackedSlot.keyId = [str "phone", str "laptop"] ∧
      pqdm2IterSlots region = (slots.map PackedSlot.view, none) := by
  obtain ⟨e, hseal⟩ := exists_distinct
  obtain ⟨_, _, _, region, _, -, -, -, -, hregion, -, -⟩ := sealMulti_eq_ok.mp hseal
  obtain ⟨slots, rfl, hslots⟩ :=
    pqdm2IterSlots_inverts.2.1 P₂ (StandIn.aeadCorrect _ _) coins distinct region hregion
  exact ⟨_, slots, hregion, map_keyId_eq hslots, pqdm2IterSlots_inverts.1 slots⟩

end FanoutExample

end Pqdm
end SkPqc
