import SkPqc.Proof.Backend
import SkPqc.Proof.LiboqsPath
import SkPqc.Proof.RouteTamper
import SkPqc.Proof.SuiteGate

/-!
# Where an exception comes from

Each layer has exceptions of its own, and the KEM has one class for a machine without the backend. An exception of
the package that leaves a call is of the call's own layer or of the KEM, and it reports a missing backend only on a
machine where `is_available` says so. What is let through besides comes from other code, which knows none of these
classes.
-/

namespace SkPqc

open Wire Runs Pqkem

/-- The base classes of the package's exceptions. -/
def packageErrors : List ExcClass :=
  [.pqKemError, .pqDmError, .pqRouteError, .groupRatchetError, .dmRatchetError, .anonQueueError]

/-- An exception of other code. -/
def Exc.Foreign (e : Exc) : Prop := ¬e.In packageErrors

instance : DecidablePred Exc.Foreign := fun e => inferInstanceAs (Decidable ¬packageErrors.any e.isA = true)

/-- No call outside the repository whose errors the code lets through raises an exception of the package. -/
structure Primitives.Outside (P : Primitives) : Prop where
  exchange : ∀ k u, Ends (fun _ => True) Exc.Foreign (P.x25519.exchange k u)
  keyEncapsulation : ∀ O sk, P.importOqs = .ok O → Ends (fun _ => True) Exc.Foreign (O.keyEncapsulation sk)
  generateKeypair : ∀ O coins, P.importOqs = .ok O → Ends (fun _ => True) Exc.Foreign (O.generateKeypair coins)
  encrypt : ∀ k n data aad, Ends (fun _ => True) Exc.Foreign (P.encrypt k n data aad)

/-- An exception of other code, or of one of the classes; and if it reports a missing backend, so does the probe. -/
def Origin (P : Primitives) (classes : List ExcClass) (e : Exc) : Prop :=
  e.Foreign ∨ (e.In classes ∧ (e.cls = .pqKemUnavailable → isAvailable P = .ok false))

/-- A call whose exceptions have such an origin. -/
def Confined (P : Primitives) (classes : List ExcClass) {α : Type} (x : Py α) : Prop :=
  Ends (fun _ => True) (Origin P classes) x

section Rules
variable {P : Primitives} {α β : Type} {classes : List ExcClass} {cls : ExcClass}

theorem origin_raised {msg : List Part} (hin : Exc.In classes ⟨cls, msg⟩) (hcls : cls ≠ .pqKemUnavailable) :
    Origin P classes ⟨cls, msg⟩ :=
  .inr ⟨hin, fun h => absurd h hcls⟩

theorem confined_raise {msg : List Part} (hin : Exc.In classes ⟨cls, msg⟩) (hcls : cls ≠ .pqKemUnavailable) :
    Confined P classes (raise cls msg : Py α) := ends_raise (origin_raised hin hcls)

theorem confined_ok (a : α) : Confined P classes (.ok a : Py α) := .ok trivial

theorem Confined.bind {x : Py α} {f : α → Py β} (hx : Confined P classes x) (hf : ∀ a, Confined P classes (f a)) :
    Confined P classes (x >>= f) := Ends.bind hx fun a _ => hf a

/-- What other code raises is let through. -/
theorem Confined.foreign {x : Py α} (hx : Ends (fun _ => True) Exc.Foreign x) : Confined P classes x :=
  hx.mono (fun _ h => h) fun _ he => .inl he

theorem confined_raiseLib (hforeign : Exc.Foreign ⟨cls, [.lib]⟩) : Confined P classes (raiseLib cls : Py α) :=
  .foreign (ends_raise hforeign)

theorem confined_ofOption {o : Option α} (hforeign : Exc.Foreign ⟨cls, [.lib]⟩) : Confined P classes (ofOption cls o) :=
  .foreign (ends_ofOption (fun _ _ => trivial) hforeign)

theorem Confined.weaken {classes' : List ExcClass} {x : Py α} (hx : Confined P classes x)
    (hsub : ∀ e : Exc, e.In classes → e.In classes') : Confined P classes' x :=
  hx.mono (fun _ h => h) fun _ he => he.imp_right fun h => ⟨hsub _ h.1, h.2⟩

/-- A handler that raises an exception of the layer leaves what it does not catch. -/
theorem Confined.renamed {caught inner : List ExcClass} {x : Py α} {msg : Exc → List Part} (hx : Confined P inner x)
    (hcaught : ∀ e : Exc, e.In inner → e.In caught) (hin : ∀ m, Exc.In classes ⟨cls, m⟩)
    (hcls : cls ≠ .pqKemUnavailable) : Confined P classes (tryExcept caught x fun exc => raise cls (msg exc)) := by
  cases hx with
  | ok h => exact .ok h
  | @error e he =>
    unfold tryExcept
    dsimp only
    by_cases hany : caught.any e.isA = true
    · rw [if_pos hany]
      exact confined_raise (hin _) hcls
    · rw [if_neg hany]
      exact .error (he.imp_right fun h => absurd (hcaught e h.1) hany)

theorem confined_renamed_all {x : Py α} {msg : Exc → List Part} (hin : ∀ m, Exc.In classes ⟨cls, m⟩)
    (hcls : cls ≠ .pqKemUnavailable) :
    Confined P classes (tryExcept [.exception] x fun exc => raise cls (msg exc)) :=
  Ends.renamed (contained_exception x) fun m => origin_raised (hin m) hcls

end Rules

/-! ### The probe and the KEM -/

section Kem
variable {P : Primitives}

theorem isAvailable_of_importOqs {oqs : Oqs} (h : P.importOqs = .ok oqs) : isAvailable P = .ok true := by
  rw [isAvailable, importOqs, h]
  rfl

theorem isAvailable_of_error {e : Exc} (h : P.importOqs = .error e) : isAvailable P = .ok false := by
  rw [isAvailable, importOqs, h, tryExcept_exception]
  rfl

theorem confined_importOqs : Confined P [.pqKemError] (importOqs P) := by
  cases h : P.importOqs with
  | ok oqs =>
    rw [importOqs, h]
    exact confined_ok oqs
  | error e =>
    rw [importOqs, h, tryExcept_exception]
    exact .error (.inr ⟨rfl, fun _ => isAvailable_of_error h⟩)

theorem confined_expectLen (label : String) (value : PyVal) (n : Nat) :
    Confined P [.pqKemError] (expectLen label value n) := by
  unfold expectLen
  split
  · exact confined_raise rfl (by decide)
  · rename_i b _
    by_cases h : b.length = n
    · rw [dif_pos h]
      exact confined_ok _
    · rw [dif_neg h]
      exact confined_raise rfl (by decide)

variable (hlibs : P.Outside)
include hlibs

theorem confined_hybridKeypair (coins : KeypairCoins) : Confined P [.pqKemError] (hybridKeypair P coins) := by
  refine Ends.bind confined_importOqs.with_ok fun oqs hoqs => ?_
  have himport := importOqs_eq_ok.mp hoqs
  refine Confined.bind (.foreign (hlibs.keyEncapsulation oqs none himport)) fun _ => ?_
  refine Confined.bind (.foreign (hlibs.generateKeypair oqs _ himport)) fun pair => ?_
  refine Confined.bind (confined_expectLen _ _ _) fun _ => ?_
  exact Confined.bind (confined_expectLen _ _ _) fun _ => confined_ok _

theorem confined_hybridEncap (coins : EncapCoins) (peer : PyVal) (info : Bytes) :
    Confined P [.pqKemError] (hybridEncap P coins peer info) := by
  refine Ends.bind confined_importOqs.with_ok fun oqs hoqs => ?_
  refine Confined.bind (confined_expectLen _ _ _) fun pub => ?_
  refine Confined.bind (confined_renamed_all in_pqKemError (by decide)) fun xPeer => ?_
  refine Confined.bind (.foreign (hlibs.exchange _ _)) fun xSs => ?_
  refine Confined.bind (.foreign (hlibs.keyEncapsulation oqs none (importOqs_eq_ok.mp hoqs))) fun _ => ?_
  refine Confined.bind (confined_renamed_all in_pqKemError (by decide)) fun kem => ?_
  exact Confined.bind (confined_expectLen _ _ _) fun _ => confined_ok _

theorem confined_hybridDecap (ct priv : PyVal) (info : Bytes) :
    Confined P [.pqKemError] (hybridDecap P ct priv info) := by
  refine Ends.bind confined_importOqs.with_ok fun oqs hoqs => ?_
  refine Confined.bind (confined_expectLen _ _ _) fun ct => ?_
  refine Confined.bind (confined_expectLen _ _ _) fun priv => ?_
  refine Confined.bind (confined_renamed_all in_pqKemError (by decide)) fun xSs => ?_
  refine Confined.bind (.foreign (hlibs.keyEncapsulation oqs _ (importOqs_eq_ok.mp hoqs))) fun _ => ?_
  exact Confined.bind (confined_renamed_all in_pqKemError (by decide)) fun _ => confined_ok _

end Kem

/-! ### The layers -/

section Layers
variable {P : Primitives} {classes : List ExcClass}

theorem confined_strEncode (s : Str) : Confined P classes (strEncode s) := confined_ofOption (by decide)

theorem confined_getItem (key : Str) (d : List (Str × Json)) : Confined P classes (getItem key d) :=
  confined_ofOption (by decide)

theorem confined_canonicalJson (v : Json) : Confined P classes (canonicalJson v) := confined_strEncode _

theorem confined_downgradeLockAad (suite sender recipient : Str) (extra : Option Bytes) :
    Confined P classes (Pqdm.downgradeLockAad suite sender recipient extra) :=
  Confined.bind (confined_canonicalJson _) fun _ => confined_ok _

theorem confined_jsonEncode (v : Json) : Confined P classes (jsonEncode v) := by
  cases v with
  | str s => exact confined_strEncode s
  | _ => exact confined_raiseLib (by decide)

theorem confined_bytesFromhex (v : Json) : Confined P classes (bytesFromhex v) := by
  cases v with
  | str s => exact confined_ofOption (by decide)
  | _ => exact confined_raiseLib (by decide)

theorem confined_sortedJoin (v : Json) : Confined P classes (sortedJoin v) := by
  cases v with
  | arr items =>
    rw [sortedJoin]
    split
    · exact confined_ok _
    · exact confined_raiseLib (by decide)
  | str s => exact confined_ok _
  | obj members => exact confined_ok _
  | _ => exact confined_raiseLib (by decide)

theorem confined_toBytes (v : PyVal) : Confined P classes v.toBytes := by
  unfold PyVal.toBytes
  split
  · exact confined_ok _
  · exact confined_ok _
  · split_ifs
    · exact confined_raiseLib (by decide)
    · exact confined_raiseLib (by decide)
    · exact confined_ok _
  · split_ifs
    · exact confined_ok _
    · exact confined_raiseLib (by decide)
  · exact confined_raiseLib (by decide)
  · exact confined_raiseLib (by decide)

theorem confined_pqdm2Aad (suite : Json) (sender recipient : Str) (kids : Json) :
    Confined P classes (Pqdm.pqdm2Aad P suite sender recipient kids) := by
  refine Confined.bind (confined_sortedJoin kids) fun joined => ?_
  refine Confined.bind (confined_strEncode joined) fun joinedBytes => ?_
  refine Confined.bind (confined_jsonEncode suite) fun suiteBytes => ?_
  refine Confined.bind (confined_strEncode sender) fun senderBytes => ?_
  exact Confined.bind (confined_strEncode recipient) fun recipientBytes => confined_ok _

theorem confined_hybridPublic (bundle : Pqdm.PrekeyBundle) :
    Confined P [.pqDmError, .pqKemError] bundle.hybridPublic := by
  refine Ends.guard (origin_raised rfl (by decide)) fun _ => ?_
  refine Confined.bind ((confined_bytesFromhex _).renamed (fun _ he => he) (fun _ => rfl) (by decide)) fun pub => ?_
  by_cases hlen : pub.length = publicKeyLen
  · rw [dif_pos hlen]
    exact confined_ok _
  · rw [dif_neg hlen]
    exact confined_raise rfl (by decide)

variable (hlibs : P.Outside)
include hlibs

theorem confined_seal (coins : Pqdm.SealCoins) (plaintext : Bytes) (bundle : Pqdm.PrekeyBundle)
    (sender recipient : Str) :
    Confined P [.pqDmError, .pqKemError] (Pqdm.seal P coins plaintext bundle sender recipient) := by
  refine Ends.guard (origin_raised rfl (by decide)) fun _ => ?_
  refine Confined.bind (confined_hybridPublic bundle) fun pub => ?_
  refine Confined.bind (confined_downgradeLockAad _ _ _ _) fun aad => ?_
  refine Confined.bind ((confined_hybridEncap hlibs _ _ _).weaken fun _ he => he.cons _) fun kem => ?_
  exact Confined.bind (.foreign (hlibs.encrypt _ _ _ _)) fun _ => confined_ok _

theorem confined_openSealed (sealedBlob hybridPrivate : PyVal) (sender recipient expectedSuite : Str) :
    Confined P [.pqDmError, .pqKemError]
      (Pqdm.openSealed P sealedBlob hybridPrivate sender recipient expectedSuite) := by
  unfold Pqdm.openSealed
  split
  · exact confined_raise rfl (by decide)
  · refine Ends.guard (origin_raised rfl (by decide)) fun _ => ?_
    refine Confined.bind (confined_downgradeLockAad _ _ _ _) fun aad => ?_
    refine Confined.bind ((confined_hybridDecap hlibs _ _ _).weaken fun _ he => he.cons _) fun ss => ?_
    exact confined_renamed_all (fun _ => rfl) (by decide)

theorem confined_sealSlot (coins : Pqdm.SealMultiCoins) (i : Nat) (r : Pqdm.Recipient) :
    Confined P [.pqDmError, .pqKemError] (Pqdm.sealSlot P coins i r) := by
  have hhex : Confined P [.valueError, .keyError, .typeError]
      (do bytesFromhex (← getItem (str "hybrid_public_hex") r)) :=
    Confined.bind (confined_getItem _ r) confined_bytesFromhex
  refine Confined.bind (confined_getItem _ r) fun keyId => ?_
  refine Confined.bind (confined_jsonEncode keyId) fun kidBytes => ?_
  refine Ends.guard (origin_raised rfl (by decide)) fun _ => ?_
  refine Confined.bind (hhex.renamed (fun _ he => he) (fun _ => rfl) (by decide)) fun pub => ?_
  refine Confined.bind ((confined_hybridEncap hlibs _ _ _).weaken fun _ he => he.cons _) fun kem => ?_
  exact Confined.bind (.foreign (hlibs.encrypt _ _ _ _)) fun _ => confined_ok _

theorem confined_sealSlots (coins : Pqdm.SealMultiCoins) (rs : List Pqdm.Recipient) (i : Nat) :
    Confined P [.pqDmError, .pqKemError] (Pqdm.sealSlots P coins i rs) := by
  induction rs generalizing i with
  | nil => exact confined_ok _
  | cons r rs ih =>
    refine Confined.bind (confined_sealSlot hlibs coins i r) fun slot => ?_
    exact Confined.bind (ih (i + 1)) fun slots => confined_ok _

theorem confined_sealMulti (coins : Pqdm.SealMultiCoins) (body : Bytes) (recipients : List Pqdm.Recipient)
    (sender recipientId : Str) :
    Confined P [.pqDmError, .pqKemError] (Pqdm.sealMulti P coins body recipients sender recipientId) := by
  have hkids : Confined P [.pqDmError, .pqKemError] (recipients.mapM (getItem (str "key_id"))) :=
    (ends_mapM (R := fun _ _ => True) fun r _ => confined_getItem _ r).mono (fun _ _ => trivial) fun _ he => he
  refine Ends.guard (origin_raised rfl (by decide)) fun _ => ?_
  refine Confined.bind hkids fun kids => ?_
  refine Confined.bind (confined_pqdm2Aad _ _ _ _) fun aad => ?_
  refine Confined.bind (.foreign (hlibs.encrypt _ _ _ _)) fun ct => ?_
  refine Confined.bind (confined_sealSlots hlibs coins recipients 0) fun slots => ?_
  exact Confined.bind (confined_canonicalJson _) fun header => confined_ok _

theorem confined_sealRouted (coins : Pqroute.SealCoins) (innerMetadata : Json) (content : Bytes) (pub : PyVal)
    (routeHdr : Json) :
    Confined P [.pqRouteError] (Pqroute.sealRouted P coins innerMetadata content pub routeHdr) := by
  unfold Pqroute.sealRouted
  split
  · exact confined_raise rfl (by decide)
  · refine Ends.guard (origin_raised rfl (by decide)) fun _ => ?_
    have hheaders : Confined P [] (do return (← Pqroute.canonical routeHdr, ← Pqroute.canonical innerMetadata)) :=
      Confined.bind (confined_canonicalJson _) fun _ => Confined.bind (confined_canonicalJson _) fun _ => confined_ok _
    refine Confined.bind (hheaders.renamed (fun _ he => absurd he Bool.false_ne_true) (fun _ => rfl) (by decide))
      fun headers => ?_
    refine Confined.bind (confined_ofOption (by decide)) fun metaLen => ?_
    refine Confined.bind ((confined_hybridEncap hlibs _ _ _).renamed (fun _ he => he) (fun _ => rfl) (by decide))
      fun kem => ?_
    refine Confined.bind (.foreign (hlibs.encrypt _ _ _ _)) fun body => ?_
    exact Confined.bind (confined_ofOption (by decide)) fun hdrLen => confined_ok _

theorem confined_openRouted (blob destHybridPriv : PyVal) :
    Confined P [.pqRouteError] (Pqroute.openRouted P blob destHybridPriv) := by
  have hformat : ∀ {e : Exc}, e.cls = .pqRouteFormatError → Origin P [.pqRouteError] e := by
    rintro ⟨_, m⟩ rfl
    exact origin_raised rfl (by decide)
  refine Ends.bind ((Pqroute.ends_splitOuter blob).mono (fun _ h => h) fun _ => hformat) fun layers _ => ?_
  refine Ends.guard (origin_raised rfl (by decide)) fun _ => ?_
  refine Ends.bind (Pqroute.ends_loadsHeader P _ _ fun _ => origin_raised rfl (by decide)) fun routeHdr _ => ?_
  have hdecap : Confined P [.pqKemError]
      (do hybridDecap P (.bytes (layers.2.take ciphertextLen)) (.bytes (← destHybridPriv.toBytes)) hkdfInfo) :=
    Confined.bind (confined_toBytes _) fun _ => confined_hybridDecap hlibs _ _ _
  refine Confined.bind (hdecap.renamed (fun _ he => he) (fun _ => rfl) (by decide)) fun ss => ?_
  refine Confined.bind (confined_renamed_all (fun _ => rfl) (by decide)) fun inner => ?_
  refine Confined.bind ?_ fun _ => confined_ok _
  unfold Pqroute.splitInner
  split
  · exact confined_raise rfl (by decide)
  · refine Ends.guard (origin_raised rfl (by decide)) fun _ => ?_
    exact Ends.bind (Pqroute.ends_loadsHeader P _ _ fun _ => origin_raised rfl (by decide)) fun _ _ => confined_ok _

theorem confined_wrapEpochSecret (L : RatchetLayer) (hL : L.error ≠ .pqKemUnavailable) (coins : WrapCoins)
    (epochSecret pub : Bytes) :
    Confined P [L.error, .pqKemError] (L.wrapEpochSecret P coins epochSecret pub) := by
  have hraise : ∀ msg, Origin P [L.error, .pqKemError] ⟨L.error, msg⟩ :=
    fun msg => origin_raised (Exc.in_cons_self _ ⟨L.error, msg⟩) hL
  have hcheck : Confined P [L.error, .pqKemError] (L.checkEpochSecret epochSecret) :=
    Ends.ite (fun _ => .error (hraise _)) fun _ => confined_ok _
  refine Confined.bind hcheck fun _ => ?_
  refine Ends.guard (hraise _) fun _ => ?_
  refine Confined.bind ((confined_hybridEncap hlibs _ _ _).weaken fun _ he => he.cons _) fun kem => ?_
  exact Confined.bind (.foreign (hlibs.encrypt _ _ _ _)) fun _ => confined_ok _

theorem confined_unwrapEpochSecret (L : RatchetLayer) (hL : L.error ≠ .pqKemUnavailable) (payload priv : Bytes) :
    Confined P [L.error, .pqKemError] (L.unwrapEpochSecret P payload priv) := by
  have hin : ∀ msg, Exc.In [L.error, .pqKemError] ⟨L.error, msg⟩ := fun msg => Exc.in_cons_self _ ⟨L.error, msg⟩
  refine Ends.guard (origin_raised (hin _) hL) fun _ => ?_
  refine Confined.bind ((confined_hybridDecap hlibs _ _ _).weaken fun _ he => he.cons _) fun ss => ?_
  exact confined_renamed_all hin hL

end Layers

/-! ### Every call -/

namespace Backend

/-- The exceptions of a call's own layer. A fanout open catches every exception, and the routes rename those of the
KEM. -/
def Call.errors : Call → List ExcClass
  | hybridKeypair .. | hybridEncap .. | hybridDecap .. => [.pqKemError]
  | .seal .. | openSealed .. | sealMulti .. => [.pqDmError, .pqKemError]
  | openMulti .. => []
  | sealRouted .. | openRouted .. => [.pqRouteError]
  | wrapEpochSecret .. | unwrapEpochSecret .. => [.groupRatchetError, .pqKemError]
  | wrapDmEpochSecret .. | unwrapDmEpochSecret .. => [.dmRatchetError, .pqKemError]

/-- A call in an interpreter with a recursion limit, as far as its exceptions go: `open_routed` alone lets the one of
the limit through. -/
def Call.runWithin (P : Primitives) (levels : Nat) : (c : Call) → Py c.Result
  | openRouted blob priv => Pqroute.openRoutedWithin P levels blob priv
  | c => c.run P

theorem runWithin_sameOr (P : Primitives) (levels : Nat) (c : Call) :
    SameOr Pqroute.IsRecursionError (c.runWithin P levels) (c.run P) := by
  cases c with
  | openRouted blob priv => exact Pqroute.openRoutedWithin_sameOr P levels blob priv
  | _ => exact .refl _

/-- An exception of the package comes up without the limit too. -/
theorem run_of_runWithin {P : Primitives} {levels : Nat} {c : Call} {e : Exc} (h : c.runWithin P levels = .error e)
    (hpackage : e.In packageErrors) : c.run P = .error e := by
  rcases runWithin_sameOr P levels c with hsame | ⟨⟨cls, msg⟩, hraises, hcls⟩
  · exact hsame.symm.trans h
  · cases hraises.symm.trans h
    obtain rfl : cls = .recursionError := hcls
    cases hpackage

section Calls
variable {P : Primitives} (hlibs : P.Outside)
include hlibs

theorem confined_run (c : Call) : Confined P c.errors (c.run P) := by
  cases c with
  | hybridKeypair coins => exact confined_hybridKeypair hlibs coins
  | hybridEncap coins peer info => exact confined_hybridEncap hlibs coins peer info
  | hybridDecap ct priv info => exact confined_hybridDecap hlibs ct priv info
  | «seal» coins plaintext bundle sender recipient => exact confined_seal hlibs coins plaintext bundle sender recipient
  | openSealed blob priv sender recipient suite => exact confined_openSealed hlibs blob priv sender recipient suite
  | sealMulti coins body recipients sender recipientId =>
    exact confined_sealMulti hlibs coins body recipients sender recipientId
  | openMulti token keyId privateHex sender recipientId =>
    obtain ⟨o, ho⟩ := Pqdm.openMulti_returns P token keyId privateHex sender recipientId
    rw [Call.run, ho]
    exact confined_ok o
  | sealRouted coins innerMetadata content pub routeHdr =>
    exact confined_sealRouted hlibs coins innerMetadata content pub routeHdr
  | openRouted blob priv => exact confined_openRouted hlibs blob priv
  | wrapEpochSecret coins epochSecret pub =>
    exact confined_wrapEpochSecret hlibs GroupRatchet.layer (by decide) coins epochSecret pub
  | unwrapEpochSecret payload priv =>
    exact confined_unwrapEpochSecret hlibs GroupRatchet.layer (by decide) payload priv
  | wrapDmEpochSecret coins epochSecret pub =>
    exact confined_wrapEpochSecret hlibs DmRatchet.layer (by decide) coins epochSecret pub
  | unwrapDmEpochSecret payload priv =>
    exact confined_unwrapEpochSecret hlibs DmRatchet.layer (by decide) payload priv

/-- An exception of the package that a call raises, on any input and under any recursion limit, is of the layers it
belongs to; and only a machine without the backend makes it `PqKemUnavailable`. -/
theorem errors_of_run {c : Call} {e : Exc} (h : c.run P = .error e ∨ ∃ levels, c.runWithin P levels = .error e)
    (hpackage : e.In packageErrors) :
    e.In c.errors ∧ (e.cls = .pqKemUnavailable → isAvailable P = .ok false) := by
  have hrun : c.run P = .error e := by
    rcases h with h | ⟨levels, h⟩
    · exact h
    · exact run_of_runWithin h hpackage
  have hconfined := confined_run hlibs c
  rw [hrun] at hconfined
  exact hconfined.of_error.resolve_left (not_not.mpr hpackage)

/-- On a machine where the search for liboqs returns, the probe answers, and it answers yes exactly where no call, on
any input, reports a missing backend. -/
theorem isAvailableOn_iff {host : Host} {env : Environ} (hsearch : (ensureLiboqsPath host env).1 = .ok ()) :
    (∃ b, isAvailableOn P host env = .ok b) ∧
      (isAvailableOn P host env = .ok true ↔
        ∀ (c : Call) (msg : List Part), c.run P ≠ .error ⟨.pqKemUnavailable, msg⟩) := by
  have hprobe : isAvailableOn P host env = isAvailable P := by
    rw [isAvailableOn, hsearch, ok_bind, isAvailable]
  rw [hprobe]
  cases himport : P.importOqs with
  | ok oqs =>
    have hyes := isAvailable_of_importOqs himport
    refine ⟨⟨true, hyes⟩, iff_of_true hyes fun c msg h => ?_⟩
    have hconfined := confined_run hlibs c
    rw [h] at hconfined
    rcases hconfined.of_error with hforeign | ⟨-, hno⟩
    · exact hforeign rfl
    · cases hyes.symm.trans (hno rfl)
  | error e =>
    have hno := isAvailable_of_error himport
    refine ⟨⟨false, hno⟩, iff_of_false (fun hyes => ?_) fun hnever => ?_⟩
    · cases hyes.symm.trans hno
    · obtain ⟨msg, hraises⟩ : ∃ msg, importOqs P = .error ⟨.pqKemUnavailable, msg⟩ := by
        rw [importOqs, himport, tryExcept_exception]
        exact ⟨_, rfl⟩
      exact hnever (.hybridKeypair ⟨.zero _, []⟩) _ (hybridKeypair_of_importOqs hraises _)

end Calls

/-! ### With and without the backend -/

namespace OriginsExample

def P : Primitives := StandIn.primitives StandIn.sums []

theorem outside : P.Outside where
  exchange _ _ := .ok trivial
  keyEncapsulation := by
    rintro _ sk ⟨⟩
    exact .ok trivial
  generateKeypair := by
    rintro _ coins ⟨⟩
    exact .ok trivial
  encrypt _ _ _ _ := .ok trivial

theorem outside_withoutOqs : (P.withoutOqs missing).Outside where
  exchange := outside.exchange
  keyEncapsulation _ _ h := by cases h
  generateKeypair _ _ h := by cases h
  encrypt := outside.encrypt

/-- A key draw on a machine without the backend: the probe says so too. -/
theorem errors_of_run_hybridKeypair : isAvailable (P.withoutOqs missing) = .ok false := by
  obtain ⟨msg, himport⟩ := importOqs_withoutOqs P missing
  exact (errors_of_run outside_withoutOqs (c := .hybridKeypair ⟨.zero _, []⟩)
    (.inl (hybridKeypair_of_importOqs himport _)) rfl).2 rfl

/-- A key draw on a machine with the backend and a path that is set. -/
theorem isAvailableOn_iff_run :
    (Call.hybridKeypair ⟨.zero _, []⟩).run P ≠ .error ⟨.pqKemUnavailable, [.lib]⟩ := by
  have hsearch : (ensureLiboqsPath LiboqsExample.host ⟨some (str "/usr"), none, none⟩).1 = .ok () := rfl
  exact (isAvailableOn_iff outside hsearch).2.mp rfl _ _

end OriginsExample

end Backend
end SkPqc
