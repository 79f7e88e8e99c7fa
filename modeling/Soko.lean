import Soko.Library.Runs
import Soko.Pipeline.Bookkeeping
import Soko.Pipeline.Collection
import Soko.Gpu.Transform
import Soko.Gpu.Sampler
import Soko.Gpu.Presign
import Soko.Gpu.VerifyRaw
import Soko.Shake.Keccak
import Soko.Shake.Sponge
import Soko.Library.BitStream
import Soko.Signature.CoeffBits
import Soko.Signature.Encode
import Soko.Signature.Decode
import Soko.Signature.Format
import Soko.Gpu.HashToPoint
import Soko.Gpu.VerifyCompressed
import Soko.Gpu.Host
import Soko.Gpu.KeyCache
import Soko.Library.Loops
import Soko.Simulator.Simulation
import Soko.Simulator.Machine
import Soko.Simulator.Conservation
import Soko.Simulator.Termination
import Soko.Simulator.Report
import Soko.Simulator.Sustained
import Soko.FnDsa.Tables
import Soko.FnDsa.Transform
import Soko.Gpu.StageOrders
import Soko.FnDsa.Verify
import Soko.Gpu.Mixing
import Soko.Pipeline.Seeds
import Soko.Benchmark.Online
import Soko.Gpu.KeyBuffers
import Soko.Benchmark.Tally
import Soko.Gpu.Rejection
import Soko.Library.DyadicOrbit
import Soko.Gpu.Generator
import Soko.Gpu.Acceptance
import Soko.Gpu.Halting
import Soko.Gpu.BankIndex
import Soko.Pipeline.Availability
import Soko.Gpu.TableCache
import Soko.Gpu.PresignLaunch
import Soko.Gpu.FailedUploads
import Soko.Library.NegacyclicUnits
import Soko.FnDsa.Ring
import Soko.FnDsa.PublicKey
import Soko.FnDsa.Recover
import Soko.FnDsa.Codec
import Soko.FnDsa.KeyPair
import Soko.Library.Compaction
import Soko.FnDsa.HashToPointCt
import Soko.Library.Sponge
import Soko.Shake.Stream
import Soko.FnDsa.VerifyInputs
import Soko.FnDsa.FalconVerify
import Soko.FnDsa.DeviceVerify
import Soko.Library.Interleaving
import Soko.Gpu.PresignGrid
import Soko.Gpu.PresignRequest
import Soko.Pipeline.Tokens
import Soko.Gpu.VerifyRequest
import Soko.FnDsa.SignedToken
import Soko.Benchmark.Verdicts
import Soko.Library.Progress
import Soko.Pipeline.Progress
import Soko.Pipeline.Races
import Soko.Library.Keccak
import Soko.Shake.KeccakBits
