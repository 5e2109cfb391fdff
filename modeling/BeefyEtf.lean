import BeefyEtf.Run
import BeefyEtf.Rust
import BeefyEtf.Quorum
import BeefyEtf.Primitives
import BeefyEtf.Payload
import BeefyEtf.Round
import BeefyEtf.RoundRuns
import BeefyEtf.RoundConclusion
import BeefyEtf.Justification
import BeefyEtf.Accountability
import BeefyEtf.Bits
import BeefyEtf.Codec
import BeefyEtf.Pallet
import BeefyEtf.Oracle
import BeefyEtf.OracleRuns
import BeefyEtf.Worker
import BeefyEtf.Finalize
import BeefyEtf.SessionOrder
import BeefyEtf.WorkerRuns
import BeefyEtf.Startup
import BeefyEtf.Lifecycle
import BeefyEtf.Gossip
import BeefyEtf.GossipRuns
import BeefyEtf.OnDemand
import BeefyEtf.VoteTarget
import BeefyEtf.Buffer
import BeefyEtf.Etf
import BeefyEtf.Voter
import BeefyEtf.Mandatory
import BeefyEtf.VoterRuns
import BeefyEtf.Mmr
import BeefyEtf.Runtime
import BeefyEtf.MmrKeys
import BeefyEtf.Equivocation
import BeefyEtf.Reporting
import BeefyEtf.AuxSchema
import BeefyEtf.Import
import BeefyEtf.Responder
