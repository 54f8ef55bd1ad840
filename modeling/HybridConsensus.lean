import HybridConsensus.EngineInterface
import HybridConsensus.EngineSelection
import HybridConsensus.TransitionBlock
import HybridConsensus.Delegation
import HybridConsensus.BatchVerification
import HybridConsensus.HybridEngine
import HybridConsensus.EngineLogging
import HybridConsensus.VerifierRoutine
import HybridConsensus.InFlightAncestors
import HybridConsensus.ConcurrentSelection
