import Mathlib.Data.List.Induction
import SkPqc.Proof.RatchetRuns

/-!
# The re-key bound

A sender that asks `should_rekey` before every key, and stops where the answer is yes, stays inside both
bounds (`rekey_bound`). No call but `next_outbound_key` changes a ratchet, and that call moves the counter by
one only (`exists_advance`); so what a check has answered still holds at the send behind it, and an answer of
yes is never taken back.
-/

namespace SkPqc

open Wire Runs

/-! ### The check -/

theorem RatchetState.shouldRekey_eq_true {r : RatchetState} {now : Option ℚ} {clock : ℚ} :
    r.shouldRekey now clock = true ↔
      r.rekeyMsgBound ≤ r.messageIndex ∨ r.rekeyAgeSeconds ≤ now.getD clock - r.epochStartedAt := by
  unfold shouldRekey
  by_cases h : r.messageIndex ≥ r.rekeyMsgBound
  · simp only [if_pos h, true_iff]
    exact .inl h
  · simp only [if_neg h, decide_eq_true_eq]
    constructor
    · exact .inr
    · rintro (hbound | hage)
      · exact absurd hbound h
      · exact hage

theorem RatchetState.shouldRekey_eq_false {r : RatchetState} {now : Option ℚ} {clock : ℚ} :
    r.shouldRekey now clock = false ↔
      r.messageIndex < r.rekeyMsgBound ∧ now.getD clock - r.epochStartedAt < r.rekeyAgeSeconds := by
  rw [← Bool.not_eq_true, shouldRekey_eq_true, not_or, not_le, not_le]

namespace RatchetLayer

variable {L : RatchetLayer} {P : Primitives}

/-! ### One call -/

/-- A send raises and changes nothing, or issues the next index and moves on. -/
theorem exec_nextOutboundKey_cases (L : RatchetLayer) (P : Primitives) (r : RatchetState) :
    (∃ e, L.exec P r .nextOutboundKey = (.error e, r)) ∨
      ∃ key, L.exec P r .nextOutboundKey = (.ok (.outbound r.messageIndex key), r.advance 1) := by
  cases hkey : L.deriveMessageKey P r.epochSecret r.epoch r.messageIndex with
  | error e =>
    refine .inl ⟨e, ?_⟩
    simp only [exec, nextOutboundKey, hkey, error_bind]
  | ok key =>
    refine .inr ⟨key, ?_⟩
    simp only [exec, nextOutboundKey, hkey, ok_bind]
    rfl

theorem exists_advance_exec (r : RatchetState) (call : RatchetCall) : ∃ n, (L.exec P r call).2 = r.advance n := by
  by_cases hcall : call = .nextOutboundKey
  · subst hcall
    rcases exec_nextOutboundKey_cases L P r with ⟨e, hexec⟩ | ⟨key, hexec⟩
    · exact ⟨0, by rw [hexec, RatchetState.advance_zero]⟩
    · exact ⟨1, by rw [hexec]⟩
  · exact ⟨0, by rw [exec_of_ne r hcall, RatchetState.advance_zero]⟩

/-- A run moves the counter on, and nothing else. -/
theorem exists_advance (r : RatchetState) (calls : List RatchetCall) :
    ∃ n, after (L.exec P) r calls = r.advance n := by
  apply after_inv (L.exec P) (I := fun s => ∃ n, s = r.advance n) _ ⟨0, r.advance_zero.symm⟩
  rintro s call ⟨m, rfl⟩
  obtain ⟨n, hexec⟩ := exists_advance_exec (L := L) (P := P) (r.advance m) call
  exact ⟨m + n, by rw [hexec, RatchetState.advance_advance]⟩

/-- What a check has answered yes to stays answered yes. -/
theorem shouldRekey_after {r : RatchetState} {now now' : Option ℚ} {clock clock' : ℚ}
    (h : r.shouldRekey now clock = true) (hle : now.getD clock ≤ now'.getD clock') (calls : List RatchetCall) :
    (after (L.exec P) r calls).shouldRekey now' clock' = true := by
  obtain ⟨n, hafter⟩ := exists_advance (L := L) (P := P) r calls
  rw [hafter, RatchetState.shouldRekey_eq_true]
  rw [RatchetState.shouldRekey_eq_true] at h
  simp only [RatchetState.advance]
  rcases h with hbound | hage
  · exact .inl (by omega)
  · exact .inr (hage.trans (sub_le_sub_right hle _))

/-! ### Guarded runs -/

variable (L P) in
/-- Each send directly follows a check that answered no. -/
def Guarded (r : RatchetState) (calls : List RatchetCall) : Prop :=
  ∀ before rest, calls = before ++ .nextOutboundKey :: rest → ∃ before' now clock,
    before = before' ++ [.shouldRekey now clock] ∧
      (L.exec P (after (L.exec P) r before') (.shouldRekey now clock)).1 = .ok (.rekey false)

theorem Guarded.append_left {r : RatchetState} {calls calls' : List RatchetCall}
    (h : Guarded L P r (calls ++ calls')) : Guarded L P r calls := by
  rintro before rest rfl
  exact h before (rest ++ calls') (by rw [List.append_assoc, List.cons_append])

/-- At a send the ratchet is inside both bounds, at the time of the check before it. -/
theorem Guarded.inside {r : RatchetState} {before rest : List RatchetCall}
    (h : Guarded L P r (before ++ .nextOutboundKey :: rest)) : ∃ before' now clock,
    before = before' ++ [.shouldRekey now clock] ∧ (after (L.exec P) r before).messageIndex < r.rekeyMsgBound ∧
      now.getD clock - r.epochStartedAt < r.rekeyAgeSeconds := by
  obtain ⟨before', now, clock, rfl, hno⟩ := h before rest rfl
  obtain ⟨n, hafter⟩ := exists_advance (L := L) (P := P) r before'
  have hstate : after (L.exec P) r (before' ++ [.shouldRekey now clock]) = r.advance n := by
    rw [after_concat, hafter, exec]
  have hanswer : (r.advance n).shouldRekey now clock = false := by
    rw [hafter] at hno
    simpa only [exec, Except.ok.injEq, RatchetReply.rekey.injEq] using hno
  obtain ⟨hindex, hage⟩ := RatchetState.shouldRekey_eq_false.mp hanswer
  refine ⟨before', now, clock, rfl, ?_, hage⟩
  rw [hstate]
  exact hindex

/-- A guarded run keeps the counter inside its bound. -/
theorem Guarded.messageIndex_le {r : RatchetState} (hstart : r.messageIndex ≤ r.rekeyMsgBound)
    {calls : List RatchetCall} (h : Guarded L P r calls) :
    (after (L.exec P) r calls).messageIndex ≤ r.rekeyMsgBound := by
  induction calls using List.reverseRecOn with
  | nil => exact hstart
  | append_singleton calls call ih =>
    have hbefore := ih h.append_left
    rw [after_concat]
    by_cases hcall : call = .nextOutboundKey
    · subst hcall
      obtain ⟨-, -, -, -, hindex, -⟩ := h.inside
      rcases exec_nextOutboundKey_cases L P (after (L.exec P) r calls) with ⟨e, hexec⟩ | ⟨key, hexec⟩
      · rw [hexec]
        exact hbefore
      · rw [hexec, RatchetState.advance_messageIndex]
        omega
    · rw [exec_of_ne _ hcall]
      exact hbefore

/-- In a guarded run from inside the bound, in either module, the counter never exceeds its bound, every index issued is
below it, and every key is issued at an age of the epoch below its limit; and a check that answers yes does so for
every later state and time. -/
theorem rekey_bound {r : RatchetState} (hstart : r.messageIndex ≤ r.rekeyMsgBound) {calls : List RatchetCall}
    (h : Guarded L P r calls) :
    (∀ before rest, calls = before ++ rest → (after (L.exec P) r before).messageIndex ≤ r.rekeyMsgBound) ∧
    (∀ before rest index key, calls = before ++ .nextOutboundKey :: rest →
      (L.exec P (after (L.exec P) r before) .nextOutboundKey).1 = .ok (.outbound index key) →
      index < r.rekeyMsgBound ∧ ∃ before' now clock, before = before' ++ [.shouldRekey now clock] ∧
        now.getD clock - r.epochStartedAt < r.rekeyAgeSeconds) ∧
    ∀ s now clock, RatchetState.shouldRekey s now clock = true → ∀ later now' clock',
      now.getD clock ≤ now'.getD clock' → (after (L.exec P) s later).shouldRekey now' clock' = true := by
  refine ⟨?_, ?_, fun _ _ _ hyes later _ _ hle => shouldRekey_after hyes hle later⟩
  · rintro before rest rfl
    exact h.append_left.messageIndex_le hstart
  · rintro before rest index key rfl hissued
    obtain ⟨before', now, clock, hcheck, hindex, hage⟩ := h.inside
    rcases exec_nextOutboundKey_cases L P (after (L.exec P) r before) with ⟨e, hexec⟩ | ⟨key', hexec⟩
    · rw [hexec] at hissued
      cases hissued
    · rw [hexec] at hissued
      cases hissued
      exact ⟨hindex, before', now, clock, hcheck, hage⟩

end RatchetLayer

/-! ### One key under a bound of one -/

namespace RekeyExample

open RatchetLayer
open RatchetExample (P)

def ratchet : RatchetState :=
  { epoch := 7, epochSecret := (BytesN.zero 32).val, rekeyMsgBound := 1, epochStartedAt := 0 }

def calls : List RatchetCall := [.shouldRekey (some 10) 0, .nextOutboundKey]

theorem shouldRekey_ratchet : ratchet.shouldRekey (some 10) 0 = false :=
  RatchetState.shouldRekey_eq_false.mpr ⟨by decide, by decide +kernel⟩

theorem guarded (L : RatchetLayer) : Guarded L P ratchet calls := by
  intro before rest h
  rcases before with _ | ⟨first, _ | ⟨second, before⟩⟩
  · cases h
  · cases h
    refine ⟨[], some 10, 0, rfl, ?_⟩
    rw [after_nil, exec, shouldRekey_ratchet]
  · have hlen := congrArg List.length h
    simp only [calls, List.length_cons, List.length_append, List.length_nil] at hlen
    omega

/-- In a module: the counter stops at the bound, the one key that is issued has an index below it and an age of the
epoch below the limit, and a check behind it answers yes, also after another key. -/
def Stops (L : RatchetLayer) : Prop :=
  (after (L.exec P) ratchet calls).messageIndex ≤ 1 ∧
  (∃ index key, (L.exec P (after (L.exec P) ratchet [.shouldRekey (some 10) 0]) .nextOutboundKey).1
      = .ok (.outbound index key) ∧ index < 1 ∧ (10 : ℚ) - ratchet.epochStartedAt < ratchet.rekeyAgeSeconds) ∧
  (after (L.exec P) (after (L.exec P) ratchet calls) [.nextOutboundKey]).shouldRekey (some 12) 0 = true

theorem rekey_bound_example : Stops GroupRatchet.layer ∧ Stops DmRatchet.layer := by
  have hstart : ratchet.messageIndex ≤ ratchet.rekeyMsgBound := by decide
  have hstops : ∀ L : RatchetLayer, Stops L := by
    intro L
    obtain ⟨hindex, hissues, hstays⟩ := rekey_bound hstart (guarded L)
    have hsend := exec_nextOutboundKey (L := L) (P := P) (r := ratchet) rfl
    have hchecked : after (L.exec P) ratchet [.shouldRekey (some 10) 0] = ratchet := rfl
    refine ⟨hindex calls [] (List.append_nil _).symm, ?_, ?_⟩
    · have hissued : (L.exec P (after (L.exec P) ratchet [.shouldRekey (some 10) 0]) .nextOutboundKey).1
          = .ok (.outbound 0 (L.keyAt P ratchet 0)) := by
        rw [hchecked, hsend]
        rfl
      obtain ⟨hlt, before, now, clock, hcheck, hage⟩ := hissues _ [] _ _ rfl hissued
      have hempty : [] ++ [RatchetCall.shouldRekey (some 10) 0] = before ++ [.shouldRekey now clock] := hcheck
      cases List.append_inj_right' hempty rfl
      exact ⟨_, _, hissued, hlt, hage⟩
    · have hafter : after (L.exec P) ratchet calls = ratchet.advance 1 := by
        show (L.exec P ratchet .nextOutboundKey).2 = ratchet.advance 1
        rw [hsend]
      refine hstays (after (L.exec P) ratchet calls) (some 11) 0 ?_ _ _ _ (by decide)
      rw [hafter]
      exact RatchetState.shouldRekey_eq_true.mpr (.inl (by decide))
  exact ⟨hstops _, hstops _⟩

end RekeyExample
end SkPqc
