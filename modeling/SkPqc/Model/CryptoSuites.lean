import Mathlib.Data.Prod.Lex
import SkPqc.Model.Python
import SkPqc.Runs.Objects
import SkPqc.Wire.Dict

/-!
# `crypto_suites`: the suite registry

A module-level `dict` from suite ids to suites, which `register` writes and the lookup helpers read. A registry
carries what `register` keeps: its keys are distinct, and each is the id of its suite.
-/

namespace SkPqc
namespace CryptoSuites

open Wire Runs

/-! ### Suites -/

inductive SuiteKind where
  | kem
  | sig
  | aead
  deriving DecidableEq

/-- `kind.value` -/
def SuiteKind.value : SuiteKind → Str
  | kem => str "kem"
  | sig => str "sig"
  | aead => str "aead"

inductive SuiteStatus where
  | classical
  | hybridPq
  | pq
  | symmetric
  deriving DecidableEq

/-- `status.value` -/
def SuiteStatus.value : SuiteStatus → Str
  | classical => str "classical"
  | hybridPq => str "hybrid-pq"
  | pq => str "pq"
  | symmetric => str "symmetric"

structure CryptoSuite where
  suiteId : Str
  kind : SuiteKind
  status : SuiteStatus
  primitives : List Str
  fipsRefs : List Str := []
  description : Str := []
  active : Bool := true
  replaces : Option Str := none
  deriving DecidableEq

/-- `CryptoSuite.is_quantum_resistant` -/
def CryptoSuite.isQuantumResistant (s : CryptoSuite) : Bool :=
  [SuiteStatus.hybridPq, .pq, .symmetric].contains s.status

/-- `CryptoSuite.to_dict` -/
def CryptoSuite.toDict (s : CryptoSuite) : List (Str × Json) :=
  [(str "suite_id", .str s.suiteId), (str "kind", .str s.kind.value), (str "status", .str s.status.value),
    (str "primitives", .arr (s.primitives.map .str)), (str "fips_refs", .arr (s.fipsRefs.map .str)),
    (str "description", .str s.description), (str "active", .bool s.active),
    (str "quantum_resistant", .bool s.isQuantumResistant),
    (str "replaces", optional s.replaces)]

/-! ### The registry -/

/-- `_SUITES` -/
structure Registry where
  suites : List (Str × CryptoSuite)
  nodup : (suites.map Prod.fst).Nodup
  keyed : ∀ m ∈ suites, m.1 = m.2.suiteId

def Registry.empty : Registry where
  suites := []
  nodup := List.nodup_nil
  keyed _ h := absurd h List.not_mem_nil

/-- `register` -/
def register (r : Registry) (suite : CryptoSuite) : CryptoSuite × Registry :=
  (suite,
    { suites := setItem suite.suiteId suite r.suites
      nodup := nodup_setItem r.nodup
      keyed := by
        intro m hm
        rcases eq_or_mem_of_mem_setItem hm with rfl | hm
        · rfl
        · exact r.keyed m hm })

/-- The suites that `_seed` registers. -/
def seedSuites : List CryptoSuite :=
  [ { suiteId := str "ed25519-v1"
      kind := .sig
      status := .classical
      primitives := [str "Ed25519", str "SHA-256"]
      fipsRefs := [str "RFC 8032", str "RFC 9580"]
      description := str "Classical Ed25519 detached PGP signature (skcomms/capauth today)."
      active := true },
    { suiteId := str "rsa4096-v1"
      kind := .sig
      status := .classical
      primitives := [str "RSA-4096", str "SHA-256"]
      fipsRefs := [str "RFC 8017", str "RFC 9580"]
      description := str "Classical RSA-4096 PGP signature (legacy capauth keys)."
      active := true },
    { suiteId := str "rsa-pgp-wrap-v1"
      kind := .kem
      status := .classical
      primitives := [str "PGP key-wrap (Curve25519/RSA)", str "AES-256 session key"]
      fipsRefs := [str "RFC 9580"]
      description := str ("Classical PGP key-wrap of an AES-256 group/session key " ++
        "(skchat group-key distribution today).")
      active := true },
    { suiteId := str "x25519-pgp-wrap-v1"
      kind := .kem
      status := .classical
      primitives := [str "X25519 (Curve25519) PGP key-wrap", str "AES-256 session key"]
      fipsRefs := [str "RFC 7748", str "RFC 9580"]
      description := str ("Classical X25519 PGP key-wrap of an AES-256 session key " ++
        "(skcomms envelope payload / DM wrap today).")
      active := true },
    { suiteId := str "aes256-gcm-v1"
      kind := .aead
      status := .symmetric
      primitives := [str "AES-256-GCM", str "HKDF-SHA256"]
      fipsRefs := [str "FIPS 197", str "SP 800-38D", str "SP 800-108"]
      description := str ("AES-256-GCM bulk cipher — Grover-only (~128-bit), " ++
        "quantum-acceptable. Do not migrate.")
      active := true },
    { suiteId := str "x25519-mlkem768"
      kind := .kem
      status := .hybridPq
      primitives :=
        [str "X25519 (ephemeral-static DHKEM)", str "ML-KEM-768 (FIPS 203, liboqs)",
          str "HKDF-SHA256 concat-KDF combiner"]
      fipsRefs := [str "FIPS 203", str "RFC 7748", str "RFC 5869"]
      description := str ("LIVE hybrid X25519 || ML-KEM-768 key-encapsulation " ++
        "primitive (skcomms.pqkem). Secret unless BOTH primitives break. " ++
        "Cross-impl interoperable with sk_pqc (Dart). Verified primitive " ++
        "only — NOT yet wired into envelope/group (Q2/Q3).")
      active := true
      replaces := some (str "x25519-pgp-wrap-v1") },
    { suiteId := str "x25519-mlkem768-v2"
      kind := .kem
      status := .hybridPq
      primitives := [str "X25519", str "ML-KEM-768", str "HKDF-SHA256 concat-KDF combiner"]
      fipsRefs := [str "FIPS 203", str "RFC 7748"]
      description := str ("PLANNED (Phase 1): hybrid X25519 ‖ ML-KEM-768 key " ++
        "encapsulation. Secret unless BOTH primitives break. NOT YET ACTIVE.")
      active := false
      replaces := some (str "rsa-pgp-wrap-v1") },
    { suiteId := str "mldsa65-ed25519-v2"
      kind := .sig
      status := .hybridPq
      primitives :=
        [str "Ed25519 (RFC 8032)", str "ML-DSA-65 (FIPS 204, liboqs)",
          str "length-prefixed SKHS composite (both legs required)"]
      fipsRefs := [str "FIPS 204", str "RFC 8032"]
      description := str ("LIVE hybrid Ed25519 + ML-DSA-65 composite signature " ++
        "(skcomms.pqsig). Valid iff BOTH legs verify; unforgeable while " ++
        "EITHER scheme holds. Opt-in/negotiated on SignedEnvelope.sig_suite " ++
        "+ capauth challenge; classical ed25519-v1 stays the default for old " ++
        "peers (either-or verify). NOTE: the ROOT PGP identity key is NOT " ++
        "migrated (Phase-2 Sequoia, gated) — this is the per-message / " ++
        "challenge signing layer only.")
      active := true
      replaces := some (str "ed25519-v1") },
    { suiteId := str "slh-dsa-shake-256-v2"
      kind := .sig
      status := .pq
      primitives := [str "SLH-DSA-SHAKE-256"]
      fipsRefs := [str "FIPS 205"]
      description := str ("PLANNED (Phase 2): hash-based SLH-DSA root-of-trust " ++
        "signer (sovereign root only). NOT YET ACTIVE.")
      active := false } ]

/-- The registry that the module starts with. -/
def seeded : Registry := after register .empty seedSuites

/-! ### Lookup helpers -/

/-- `get_suite` -/
def getSuite (r : Registry) (suiteId : Str) : Option CryptoSuite := lookup suiteId r.suites

/-- The sort key of `all_suites`: `(not s.active, s.status.value, s.suite_id)`. -/
def sortKey (s : CryptoSuite) : Bool ×ₗ Str ×ₗ Str := toLex (!s.active, toLex (s.status.value, s.suiteId))

/-- `all_suites` -/
def allSuites (r : Registry) : List CryptoSuite :=
  (r.suites.map Prod.snd).insertionSort fun a b => sortKey a ≤ sortKey b

/-- `active_suites` -/
def activeSuites (r : Registry) : List CryptoSuite := (allSuites r).filter CryptoSuite.active

/-- `suite_status` -/
def suiteStatus (r : Registry) (suiteId : Str) : SuiteStatus :=
  match getSuite r suiteId with
  | some suite => suite.status
  | none => .classical

/-- `is_quantum_resistant` -/
def isQuantumResistant (r : Registry) (suiteId : Str) : Bool :=
  match getSuite r suiteId with
  | some suite => suite.isQuantumResistant
  | none => false

end CryptoSuites
end SkPqc
