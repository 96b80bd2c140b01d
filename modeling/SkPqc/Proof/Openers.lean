import SkPqc.Proof.EpochWrap
import SkPqc.Proof.KemErrors
import SkPqc.Proof.OneShot

/-!
# What the openers do with hostile input

The three openers check a length, decapsulate, and decrypt under a `try`. So on any bytes each returns data of
the length that its input fixes, or raises an error of its module or of the KEM (`contained_openers`). The
format error of `openSealed` stands for its length check alone: whatever fails after it has another class.
-/

namespace SkPqc

open Wire Pqkem Pqdm Runs

section Openers
variable {P : Primitives}

/-! ### `open_sealed` -/

namespace Pqdm

/-- The errors of an open past its length check. -/
def OpenError (e : Exc) : Prop := e.cls = .downgradeDetected ∨ e.In [.pqKemError]

theorem OpenError.in_pqDmError {e : Exc} (h : OpenError e) : e.In [.pqDmError, .pqKemError] := by
  rcases h with h | h
  · obtain ⟨cls, msg⟩ := e
    cases h
    rfl
  · exact h.cons _

theorem OpenError.ne_format {e : Exc} (h : OpenError e) : e.cls ≠ .pqDmFormatError := by
  obtain ⟨cls, msg⟩ := e
  rintro rfl
  rcases h with h | h
  · cases h
  · exact absurd h Bool.false_ne_true

/-- Past the length check an open returns the data of the last part, or raises no format error. -/
theorem ends_openSealed (hopens : ∀ oqs, P.importOqs = .ok oqs → oqs.Opens) (htag : P.DecryptDropsTag) {blob : Bytes}
    (hlen : ¬blob.length < sealedMinLen) (priv : PyVal) (sender recipient expectedSuite : Str) :
    Ends (fun plaintext => plaintext.length + sealedMinLen = blob.length) OpenError
      (openSealed P (.bytes blob) priv sender recipient expectedSuite) := by
  simp only [openSealed, PyVal.data?_bytes, if_neg hlen, downgradeLockAad_eq, ok_bind]
  refine Ends.bind (Ends.mono (contained_hybridDecap hopens _ _ _) (fun _ h => h) fun _ => .inr) fun ss _ => ?_
  refine Ends.mono (Ends.renamed (contained_exception _).with_ok fun _ => .inl rfl) (fun plaintext hplaintext => ?_)
    fun _ he => he
  have hbody := htag _ _ _ _ _ hplaintext
  rw [List.length_drop] at hbody
  simp only [sealedMinLen, aesgcmTagLen] at hlen ⊢
  omega

theorem openSealed_short {blob : Bytes} (hlen : blob.length < sealedMinLen) (priv : PyVal)
    (sender recipient expectedSuite : Str) :
    ∃ msg, openSealed P (.bytes blob) priv sender recipient expectedSuite = .error ⟨.pqDmFormatError, msg⟩ := by
  simp only [openSealed, PyVal.data?_bytes, if_pos hlen]
  exact ⟨_, rfl⟩

end Pqdm

/-! ### The epoch secrets -/

theorem ends_unwrapEpochSecret (hopens : ∀ oqs, P.importOqs = .ok oqs → oqs.Opens) (htag : P.DecryptDropsTag)
    (L : RatchetLayer) (payload priv : Bytes) :
    Ends (fun secret => secret.length = 32) (Exc.In [L.error, .pqKemError]) (L.unwrapEpochSecret P payload priv) := by
  have hcontained : Contained [L.error, .pqKemError] (L.unwrapEpochSecret P payload priv) := by
    refine Ends.guard (Exc.in_cons_self _ ⟨L.error, _⟩) fun _ => ?_
    refine Contained.bind ((contained_hybridDecap hopens _ _ _).mono fun _ he => he.cons _) fun ss => ?_
    exact contained_renamed (contained_exception _) fun _ => Exc.in_cons_self _ ⟨L.error, _⟩
  exact hcontained.with_ok.mono (fun _ h => L.length_of_unwrapEpochSecret htag h) fun _ he => he

/-- On any bytes, under any bytes for a key, each opener returns data of the one length that its input allows, or raises
an error of its module or of the KEM; and `openSealed` raises its format error for short blobs only. -/
theorem contained_openers (hopens : ∀ oqs, P.importOqs = .ok oqs → oqs.Opens) (htag : P.DecryptDropsTag)
    (blob priv : Bytes) :
    (∀ sender recipient expectedSuite,
        Ends (fun plaintext => plaintext.length + 1148 = blob.length) (Exc.In [.pqDmError, .pqKemError])
            (openSealed P (.bytes blob) (.bytes priv) sender recipient expectedSuite) ∧
          ((∃ msg, openSealed P (.bytes blob) (.bytes priv) sender recipient expectedSuite
              = .error ⟨.pqDmFormatError, msg⟩) ↔ blob.length < 1148)) ∧
      Ends (fun secret => secret.length = 32) (Exc.In [.groupRatchetError, .pqKemError])
        (GroupRatchet.unwrapEpochSecret P blob priv) ∧
      Ends (fun secret => secret.length = 32) (Exc.In [.dmRatchetError, .pqKemError])
        (DmRatchet.unwrapDmEpochSecret P blob priv) := by
  refine ⟨fun sender recipient expectedSuite => ?_, ends_unwrapEpochSecret hopens htag GroupRatchet.layer blob priv,
    ends_unwrapEpochSecret hopens htag DmRatchet.layer blob priv⟩
  have hmin : sealedMinLen = 1148 := rfl
  by_cases hlen : blob.length < sealedMinLen
  · obtain ⟨msg, hshort⟩ := openSealed_short hlen (.bytes priv) (P := P) sender recipient expectedSuite
    rw [hshort]
    exact ⟨.error rfl, fun _ => hmin ▸ hlen, fun _ => ⟨msg, rfl⟩⟩
  · have hends := ends_openSealed hopens htag hlen (.bytes priv) sender recipient expectedSuite
    constructor
    · exact hends.mono (fun _ h => hmin ▸ h) fun _ he => he.in_pqDmError
    · constructor
      · rintro ⟨msg, hraises⟩
        rw [hraises] at hends
        exact absurd rfl hends.of_error.ne_format
      · intro h
        exact absurd (hmin ▸ h) hlen

end Openers

/-! ### One run -/

namespace OpenersExample

def P : Primitives := StandIn.primitives StandIn.sums []

/-- Zeros for a blob and for a key: one byte short the blob gives the format error, and as an epoch payload it unwraps
to a secret or raises an error of the module or of the KEM. -/
theorem contained_openers_run :
    (∃ msg, openSealed P (.bytes (BytesN.zero 1147)) (.bytes (BytesN.zero 2432)) (str "bob") (str "alice") hybridSuite
        = .error ⟨.pqDmFormatError, msg⟩) ∧
      Ends (fun secret => secret.length = 32) (Exc.In [.groupRatchetError, .pqKemError])
        (GroupRatchet.unwrapEpochSecret P (BytesN.zero 1180) (BytesN.zero 2432)) := by
  have hopens : ∀ oqs, P.importOqs = .ok oqs → oqs.Opens := by
    intro oqs h
    cases h
    exact StandIn.oqs_opens
  have htag : P.DecryptDropsTag := fun _ _ _ _ _ h => StandIn.length_decrypt [] StandIn.sums h
  refine ⟨((contained_openers hopens htag (BytesN.zero 1147) _).1 _ _ _).2.mpr ?_,
    (contained_openers hopens htag (BytesN.zero 1180) _).2.1⟩
  rw [BytesN.length_val]
  decide

end OpenersExample

end SkPqc
