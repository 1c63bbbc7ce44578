import LibEltor.Search
import LibEltor.Bytes
import LibEltor.Codec
import LibEltor.Parser
import LibEltor.Transition
import LibEltor.Onion
import LibEltor.ExtendCell
import LibEltor.PaymentUtil
import LibEltor.CircuitExtend
import LibEltor.NtorV3
import LibEltor.Smartlist
import LibEltor.CircuitBuild
import LibEltor.ExtendPaidCircuit
import LibEltor.ExtendPaidPayments
import LibEltor.ExtendPaidErrors
import LibEltor.CircidMap
import LibEltor.CircidCache
import LibEltor.IndexedList
import LibEltor.Circuitlist
import LibEltor.Circuitmux
import LibEltor.OnionQueue
import LibEltor.Cpuworker
import LibEltor.ControlTeardowncircuit
import LibEltor.DestroyQueue
import LibEltor.TeardownReferences
import LibEltor.Word
import LibEltor.CongestionControl
import LibEltor.CcNegotiation
import LibEltor.Vegas
import LibEltor.VegasWindow
import LibEltor.Sendme
import LibEltor.SendmeNetwork
import LibEltor.DestroyQueue
import LibEltor.TeardownReferences
import LibEltor.Conflux
import LibEltor.ConfluxLink
import LibEltor.ConfluxQueue
import LibEltor.ConfluxSend
import LibEltor.VegasDivision
import LibEltor.SendmeRandomness
import LibEltor.RelayCrypto
import LibEltor.ConfluxClose
import LibEltor.Multipath
import LibEltor.ConfluxStream
import LibEltor.ConfluxNetwork
import LibEltor.ConfluxPool
import LibEltor.FlowControl
import LibEltor.FlowControlStream
import LibEltor.Binascii
import LibEltor.SharedRandom
import LibEltor.SharedRandomState
import LibEltor.SharedRandomSrv
import LibEltor.Addressmap
import LibEltor.Dos
import LibEltor.Keypin
import LibEltor.HsCache
import LibEltor.CircuitmuxEwma
import LibEltor.Consdiff
import LibEltor.OrderStatistic
import LibEltor.DirvoteParams
import LibEltor.Dircollate
import LibEltor.Dirvote
import LibEltor.PaymentPreimage
import LibEltor.ExtendPaidHops
import LibEltor.TeardownLookup
import LibEltor.HsPow
import LibEltor.HsTimePeriod
import LibEltor.HsDescRotation
import LibEltor.Buffers
import LibEltor.BufFifo
import LibEltor.PaddingNegotiation
import LibEltor.PaddingInvariant
import LibEltor.PaddingAgreement
import LibEltor.EntryGuards
import LibEltor.EntryGuardLists
import LibEltor.EntryGuardPrimary
import LibEltor.EntryGuardState
import LibEltor.Checked
import LibEltor.CircuitmuxPicks
import LibEltor.CommonSubsequence
import LibEltor.ConfluxDequeue
import LibEltor.ConsdiffMinimal
import LibEltor.Encoder
import LibEltor.ExtendCellBuffer
import LibEltor.OnionQueueRoom
import LibEltor.OnionQueueTurns
import LibEltor.VegasEstimates
import LibEltor.AddrPolicy
import LibEltor.DosCircuitCreation
import LibEltor.ExitPolicy
import LibEltor.Protover
import LibEltor.ProtoverLookup
import LibEltor.ConsdiffEdit
import LibEltor.Comparison
import LibEltor.Versions
import LibEltor.PolicySummary
import LibEltor.ShortPolicy
import LibEltor.Circuitstats
import LibEltor.TokenBucket
import LibEltor.AddressmapRewrite
import LibEltor.DirvoteParamsMedian
import LibEltor.ConsensusMethod
import LibEltor.DetachedSignatures
import LibEltor.DircollateMajority
import LibEltor.Tally
import LibEltor.CircuitBuildTimes
import LibEltor.CircuitBuildTimesState
import LibEltor.VotingSchedule
import LibEltor.SharedRandomDisk
import LibEltor.SharedRandomValidUntil
import LibEltor.Formula
import LibEltor.BwWeights
import LibEltor.BwWeightsProducts
import LibEltor.CryptoOpe
import LibEltor.Replaycache
import LibEltor.HsPowSolve
import LibEltor.SmartlistBsearch
import LibEltor.HashRing
import LibEltor.HsResponsibleHsdirs
import LibEltor.BufCounted
import LibEltor.BufFind
import LibEltor.ProtoHttp
import LibEltor.Escape
import LibEltor.Kvline
import LibEltor.Base64Lines
import LibEltor.Base32
import LibEltor.BinasciiCodecs
import LibEltor.LinkedNodes
import LibEltor.Confline
import LibEltor.Conffile
import LibEltor.HsDescRevision
import LibEltor.PqueueCompare
import LibEltor.ExtendPaidBuffer
import LibEltor.EntryGuardUpgrade
import LibEltor.PaddingHistogram
import LibEltor.PaddingSample
import LibEltor.HsPowQueue
import LibEltor.HsPowEffort
import LibEltor.HsPowTrim
import LibEltor.HalfEdge
import LibEltor.TokenBucketRw
