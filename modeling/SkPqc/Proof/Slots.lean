import SkPqc.Model.Pqdm2

/-!
# Slot regions

A slot on the wire is a length byte, that many bytes of key id, an encapsulation and a wrapped key. The
scanner reads a slot wherever it stands (`RawSlot.readsPacked`) and stops at anything else but the end
(`cut_or_stops`). So a slot region is a list of slots and a tail, and it scans without an error exactly when
there is no tail (`pqdm2IterSlots_snd_eq_none_iff`).
-/

namespace SkPqc
namespace Pqdm

open Wire Pqkem

/-- A slot as it stands in a region. The key id need not be UTF-8. -/
structure RawSlot where
  kid : Bytes
  length_le : kid.length ≤ 255
  encap : BytesN ciphertextLen
  wrappedK : BytesN pqdm2WrappedKLen

namespace RawSlot

def pack (s : RawSlot) : Bytes := [UInt8.ofNat s.kid.length] ++ s.kid ++ s.encap ++ s.wrappedK

def view (s : RawSlot) : Slot := { keyId := decodeUtf8Replace s.kid, encap := s.encap, wrappedK := s.wrappedK }

theorem length_pack (s : RawSlot) : s.pack.length = 1 + s.kid.length + ciphertextLen + pqdm2WrappedKLen := by
  simp only [pack, List.length_append, List.length_singleton, BytesN.length_val]

theorem pack_ne_nil (s : RawSlot) : s.pack ≠ [] := List.cons_ne_nil _ _

/-- The scanner reads a packed slot wherever it stands. -/
theorem readsPacked (s : RawSlot) : ReadsPacked pqdm2NextSlot pack view s := by
  refine ⟨s.pack_ne_nil, ?_⟩
  intro before after
  have hle := s.length_le
  have hencapLen := s.encap.length_val
  have hwrappedLen := s.wrappedK.length_val
  have hbyte : (UInt8.ofNat s.kid.length).toNat = s.kid.length := by
    rw [UInt8.toNat_ofNat']
    omega
  have hget : (before ++ (s.pack ++ after)).getD before.length 0 = UInt8.ofNat s.kid.length := by
    simp [pack, List.getD_eq_getElem?_getD]
  have hkid : slice (before ++ (s.pack ++ after)) (before.length + 1) (before.length + 1 + s.kid.length) = s.kid := by
    rw [show before ++ (s.pack ++ after)
      = before ++ [UInt8.ofNat s.kid.length] ++ s.kid ++ (s.encap.val ++ s.wrappedK.val ++ after) by simp [pack]]
    exact slice_append_append (by simp) (by simp)
  have hencap : slice (before ++ (s.pack ++ after)) (before.length + 1 + s.kid.length)
      (before.length + 1 + s.kid.length + ciphertextLen) = s.encap.val := by
    rw [show before ++ (s.pack ++ after)
      = before ++ [UInt8.ofNat s.kid.length] ++ s.kid ++ s.encap.val ++ (s.wrappedK.val ++ after) by simp [pack]]
    exact slice_append_append (by simp; omega) (by simp; omega)
  have hwrapped : slice (before ++ (s.pack ++ after)) (before.length + 1 + s.kid.length + ciphertextLen)
      (before.length + 1 + s.kid.length + ciphertextLen + pqdm2WrappedKLen) = s.wrappedK.val := by
    rw [show before ++ (s.pack ++ after)
      = before ++ [UInt8.ofNat s.kid.length] ++ s.kid ++ s.encap.val ++ s.wrappedK.val ++ after by simp [pack]]
    exact slice_append_append (by simp; omega) (by simp; omega)
  have htotal : (before ++ (s.pack ++ after)).length
      = before.length + (1 + s.kid.length + ciphertextLen + pqdm2WrappedKLen) + after.length := by
    rw [List.length_append, List.length_append, length_pack]
    omega
  simp only [pqdm2NextSlot, hget, hbyte, hkid, hencap, hwrapped, htotal, length_pack]
  rw [if_neg (by omega)]
  simp only [view, Except.ok.injEq, Prod.mk.injEq, true_and]
  omega

end RawSlot

/-- The error of a slot that is cut off. -/
def truncatedSlot : Exc := ⟨.pqDmFormatError, [.lit "truncated pqdm2 slot"]⟩

/-- Every region but the empty one starts with a slot, or the scanner fails at it. -/
theorem cut_or_fails {region : Bytes} (hne : region ≠ []) :
    (∃ (s : RawSlot) (rest : Bytes), region = s.pack ++ rest) ∨
      ∀ before : Bytes, pqdm2NextSlot (before ++ region) before.length = .error truncatedSlot := by
  obtain ⟨x, xs, rfl⟩ := List.exists_cons_of_ne_nil hne
  have hx := x.toNat_lt
  by_cases hfits : x.toNat + ciphertextLen + pqdm2WrappedKLen ≤ xs.length
  · have hencap : ((xs.drop x.toNat).take ciphertextLen).length = ciphertextLen := by
      rw [List.length_take, List.length_drop]
      omega
    have hwrapped : ((xs.drop (x.toNat + ciphertextLen)).take pqdm2WrappedKLen).length = pqdm2WrappedKLen := by
      rw [List.length_take, List.length_drop]
      omega
    have hkid : (xs.take x.toNat).length = x.toNat := by
      rw [List.length_take]
      omega
    refine .inl ⟨⟨xs.take x.toNat, by omega, ⟨_, hencap⟩, ⟨_, hwrapped⟩⟩,
      xs.drop (x.toNat + ciphertextLen + pqdm2WrappedKLen), ?_⟩
    have hbyte : UInt8.ofNat x.toNat = x := UInt8.ofNat_toNat
    have hlast := List.take_append_drop pqdm2WrappedKLen (xs.drop (x.toNat + ciphertextLen))
    have hmiddle := List.take_append_drop ciphertextLen (xs.drop x.toNat)
    rw [List.drop_drop] at hlast hmiddle
    simp only [RawSlot.pack, hkid, hbyte, List.append_assoc, hlast, hmiddle, List.singleton_append]
    rw [List.cons_append, List.take_append_drop]
  · refine .inr fun before => ?_
    have hget : (before ++ x :: xs).getD before.length 0 = x := by
      simp [List.getD_eq_getElem?_getD]
    have htotal : (before ++ x :: xs).length = before.length + (xs.length + 1) := by
      rw [List.length_append, List.length_cons]
    simp only [pqdm2NextSlot, hget, htotal]
    rw [if_pos (by omega)]
    rfl

/-- Every region starts with a slot, or the scanner stops at it. -/
theorem cut_or_stops (region : Bytes) :
    (∃ (s : RawSlot) (rest : Bytes), region = s.pack ++ rest) ∨ ∃ stop, Stops pqdm2NextSlot region stop := by
  by_cases hempty : region = []
  · exact .inr ⟨none, .ended hempty⟩
  · rcases cut_or_fails hempty with hcut | hfails
    · exact .inl hcut
    · exact .inr ⟨some truncatedSlot, .failed hempty hfails⟩

/-- A region that is nothing but slots. -/
def Complete (region : Bytes) : Prop := ∃ slots : List RawSlot, region = slots.flatMap RawSlot.pack

/-- Slots are scanned as they are, up to what comes after them. -/
theorem pqdm2IterSlots_append (slots : List RawSlot) {tail : Bytes} {stop : Option Exc}
    (htail : Stops pqdm2NextSlot tail stop) :
    pqdm2IterSlots (slots.flatMap RawSlot.pack ++ tail) = (slots.map RawSlot.view, stop) :=
  scan_append pqdm2NextSlot RawSlot.pack RawSlot.view (fun s _ => s.readsPacked) htail

theorem exists_rawSlots (region : Bytes) : ∃ (slots : List RawSlot) (tail : Bytes) (stop : Option Exc),
    region = slots.flatMap RawSlot.pack ++ tail ∧ Stops pqdm2NextSlot tail stop :=
  exists_packed pqdm2NextSlot RawSlot.pack RawSlot.pack_ne_nil cut_or_stops region

/-- Slots at the front of a region are scanned first, and do not change how the rest is scanned. -/
theorem pqdm2IterSlots_flatMap_append (slots : List RawSlot) (rest : Bytes) :
    pqdm2IterSlots (slots.flatMap RawSlot.pack ++ rest)
      = (slots.map RawSlot.view ++ (pqdm2IterSlots rest).1, (pqdm2IterSlots rest).2) := by
  obtain ⟨slots', tail, stop, rfl, htail⟩ := exists_rawSlots rest
  rw [← List.append_assoc, ← List.flatMap_append, pqdm2IterSlots_append _ htail, pqdm2IterSlots_append _ htail,
    List.map_append]

/-- A region scans without an error exactly when it is nothing but slots. -/
theorem pqdm2IterSlots_snd_eq_none_iff (region : Bytes) : (pqdm2IterSlots region).2 = none ↔ Complete region := by
  constructor
  · intro h
    obtain ⟨slots, tail, stop, rfl, htail⟩ := exists_rawSlots region
    rw [pqdm2IterSlots_append slots htail] at h
    cases htail with
    | ended hnil => exact ⟨slots, by rw [hnil, List.append_nil]⟩
    | failed => cases h
  · rintro ⟨slots, rfl⟩
    have hscan := pqdm2IterSlots_append slots (.ended rfl)
    rw [List.append_nil] at hscan
    rw [hscan]

end Pqdm
end SkPqc
