import NatGhost.Analyzer.BitStatistics
import NatGhost.Analyzer.ComplexityProfile
import NatGhost.Analyzer.NextPorts
import NatGhost.Analyzer.PortDeltas
import NatGhost.Analyzer.PredictorBounds
import NatGhost.Archive.Fingerprint
import NatGhost.Archive.FireThreads
import NatGhost.Archive.StunPing
import NatGhost.Discoverer.DnsProcesses
import NatGhost.Discoverer.VectorEngine
import NatGhost.NatAnalyzer.NatTypes
import NatGhost.Packet.DamagedPackets
import NatGhost.Packet.Lengths
import NatGhost.Packet.ZeroChecksum
import NatGhost.Scan.Holes
import NatGhost.Scan.NatSniffer
import NatGhost.Stun.Responses
import NatGhost.Tasks.MapReaderBounds
import NatGhost.Wave.BurstPayload
import NatGhost.Wave.CompleteWave
import NatGhost.Wave.PredictiveBurst
import NatGhost.Wave.SnifferPayload
import NatGhost.Wave.SnifferReads
