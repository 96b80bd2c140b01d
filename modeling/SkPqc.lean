import SkPqc.Model.AnonQueue
import SkPqc.Model.CryptoSuites
import SkPqc.Model.LiboqsPath
import SkPqc.Model.Pqdm
import SkPqc.Model.Pqdm2
import SkPqc.Model.Pqkem
import SkPqc.Model.Pqroute
import SkPqc.Model.Primitives
import SkPqc.Model.Python
import SkPqc.Model.Ratchet
import SkPqc.Model.Sessions
import SkPqc.Proof.Agreement
import SkPqc.Proof.AnonQueue
import SkPqc.Proof.Assumptions
import SkPqc.Proof.Backend
import SkPqc.Proof.Contained
import SkPqc.Proof.CryptoSuites
import SkPqc.Proof.Custody
import SkPqc.Proof.Domains
import SkPqc.Proof.Envelope
import SkPqc.Proof.EpochWrap
import SkPqc.Proof.Fanout
import SkPqc.Proof.FanoutOrder
import SkPqc.Proof.FanoutSeal
import SkPqc.Proof.FanoutTamper
import SkPqc.Proof.Kem
import SkPqc.Proof.KemErrors
import SkPqc.Proof.KemLegs
import SkPqc.Proof.KemTamper
import SkPqc.Proof.KeyUse
import SkPqc.Proof.LayerSeparation
import SkPqc.Proof.LiboqsPath
import SkPqc.Proof.OneShot
import SkPqc.Proof.Openers
import SkPqc.Proof.Origins
import SkPqc.Proof.Prekeys
import SkPqc.Proof.Provenance
import SkPqc.Proof.ProvenanceRouted
import SkPqc.Proof.Publication
import SkPqc.Proof.QueuePairs
import SkPqc.Proof.RatchetRuns
import SkPqc.Proof.RekeyBound
import SkPqc.Proof.RelayChain
import SkPqc.Proof.RouteHeaders
import SkPqc.Proof.RouteLimit
import SkPqc.Proof.RouteTamper
import SkPqc.Proof.Routing
import SkPqc.Proof.Sealings
import SkPqc.Proof.SelfReport
import SkPqc.Proof.Sessions
import SkPqc.Proof.SlotRegion
import SkPqc.Proof.SlotScan
import SkPqc.Proof.Slots
import SkPqc.Proof.StandIn
import SkPqc.Proof.SuiteGate
import SkPqc.Runs.Objects
import SkPqc.Runs.Outcomes
import SkPqc.Schemes.Lens
import SkPqc.Schemes.Sealing
import SkPqc.Wire.Bytes
import SkPqc.Wire.Dict
import SkPqc.Wire.Json
import SkPqc.Wire.JsonDepth
import SkPqc.Wire.JsonParse
import SkPqc.Wire.JsonRoundTrip
import SkPqc.Wire.Radix
import SkPqc.Wire.Rfc7748
import SkPqc.Wire.Scan
import SkPqc.Wire.Text
import SkPqc.Wire.Urlsafe
