import Ftape.Ecc.GaloisField
import Ftape.Algebra.LaneWord
import Ftape.Ecc.Parity
import Ftape.Ecc.Solver
import Ftape.Ecc.CorrectBlock
import Ftape.Ecc.Segment
import Ftape.Ecc.Correctness
import Ftape.Ecc.RoundTrip
import Ftape.Algebra.KeyRuns
import Ftape.Bsm.SectorList
import Ftape.Bsm.Driver
import Ftape.Bsm.Cursor
import Ftape.Bsm.Lookup
import Ftape.Bsm.Update
import Ftape.Bsm.Refinement
import Ftape.Algebra.Window
import Ftape.Write.Ring
import Ftape.Write.Recovery
import Ftape.Write.Drive
import Ftape.Write.Queue
import Ftape.Zftape.Basic
import Ftape.Zftape.HardErrors
import Ftape.Zftape.StreamOrder
import Ftape.Zftape.Read
import Ftape.Algebra.Stretch
import Ftape.Zftape.ReadStream
import Ftape.Zftape.ReadVolume
import Ftape.Zftape.FileMarks
import Ftape.Algebra.ByteOrder
import Ftape.Header.Decode
import Ftape.Header.Totality
import Ftape.Algebra.RunSum
import Ftape.Zftape.Bookkeeping
import Ftape.Header.Acceptance
import Ftape.Header.SegmentRange
import Ftape.Bsm.Bounds
import Ftape.Header.Geometry
import Ftape.Header.BadSectors
import Ftape.Volume.Entries
import Ftape.Volume.Edit
import Ftape.Volume.Bounds
import Ftape.Volume.Locality
import Ftape.Volume.Encoding
import Ftape.Volume.RoundTrip
import Ftape.Algebra.Recorded
import Ftape.Volume.Lookup
import Ftape.Volume.Positioning
import Ftape.Volume.Sessions
import Ftape.Isr.Transfer
import Ftape.Isr.Cluster
import Ftape.Isr.Progress
import Ftape.Isr.Segment
import Ftape.Isr.Runs
import Ftape.Isr.Residue
import Ftape.Algebra.LinkedRing
import Ftape.Buffers.Invariant
import Ftape.Volume.BlockSizes
import Ftape.Algebra.Routine
import Ftape.Qic117.Commands
import Ftape.Qic117.Levels
import Ftape.Device.Open
import Ftape.Device.Modes
import Ftape.Format.Protocol
import Ftape.Volume.ListInvariant
import Ftape.Zftape.WritePath
import Ftape.Volume.Writer
import Ftape.Zftape.WritePosition
import Ftape.Volume.TapePosition
import Ftape.Volume.OpenVolumes
import Ftape.Algebra.RemainderPolynomial
import Ftape.Ecc.Exponents
import Ftape.Ecc.TapeImage
import Ftape.Isr.ErasureMap
import Ftape.Isr.TransferSize
import Ftape.Isr.Verify
import Ftape.Ecc.Failure
import Ftape.Header.Rejection
import Ftape.Isr.FastFail
import Ftape.Compressor.Lzrw3
import Ftape.Compressor.Read
import Ftape.Volume.EofMap
import Ftape.Volume.BlockArithmetic
import Ftape.Volume.Coordinates
import Ftape.Qic117.FastSeek
import Ftape.Format.Perpendicular
import Ftape.Volume.Reread
import Ftape.Volume.HeaderFields
import Ftape.Zftape.WriteVerify
import Ftape.Zftape.Residue
import Ftape.Volume.WriteAccounts
import Ftape.Isr.Placement
import Ftape.Zftape.Fetch
import Ftape.Isr.Retry
import Ftape.Volume.Label
import Ftape.Qic117.ReadyWait
import Ftape.Algebra.Held
import Ftape.Buffers.Allocation
import Ftape.Compressor.Totality
import Ftape.Compressor.Progress
import Ftape.Compressor.ReadVolume
import Ftape.Compressor.Seek
import Ftape.Compressor.SeekTarget
import Ftape.Algebra.CyclicCheck
import Ftape.Parport.Crc
import Ftape.Parport.Backpack
import Ftape.Compressor.Format
import Ftape.Compressor.Blocks
