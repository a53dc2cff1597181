import EwfImage.Lib.ByteStore
import EwfImage.Lib.Fallible
import EwfImage.Lib.LittleEndian
import EwfImage.Lib.Runs
import EwfImage.Lib.Word
import EwfImage.Error
import EwfImage.Types
import EwfImage.Hashes
import EwfImage.Decode
import EwfImage.Lib.Slice
import EwfImage.Lib.Programs
import EwfImage.Format.Ewf1
import EwfImage.Format.Ewf2
import EwfImage.Image.Encoding
import EwfImage.Image.Sections
import EwfImage.Image.Ewf1Probe
import EwfImage.Image.Ewf2Probe
import EwfImage.Image.Ewf2Sections
import EwfImage.Image.Index
import EwfImage.Image.Coverage
import EwfImage.Image.Lookup
import EwfImage.Image.OpenedSegment
import EwfImage.Image.Opening
import EwfImage.Writer.Options
import EwfImage.Checksum
import EwfImage.Writer.Encode
import EwfImage.Writer.EncodeCorrect
import EwfImage.Writer.StoredSize
import EwfImage.Writer.SegmentOutput
import EwfImage.Writer.Ewf1Segment
import EwfImage.Writer.Ewf2Segment
import EwfImage.Format.Ewf2Chain
import EwfImage.Writer.Ewf2SegmentCorrect
import EwfImage.Image.Ewf2RoundTrip
import EwfImage.Metadata.Session
import EwfImage.Metadata.SessionRoundTrip
import EwfImage.Format.Ewf1Chain
import EwfImage.Writer.Ewf1SegmentCorrect
import EwfImage.Image.Ewf1RoundTrip
import EwfImage.Image.Ewf1SegmentRoundTrip
import EwfImage.Writer.Session
import EwfImage.Writer.Coherence
import EwfImage.Segment
import EwfImage.Discovery
import EwfImage.Numbering
import EwfImage.Publication.Disk
import EwfImage.Publication.Protocol
import EwfImage.Publication.Outcome
import EwfImage.Publication.Conclusion
import EwfImage.Publication.Recovery
import EwfImage.Publication.Preparation
import EwfImage.Publication.Installation
import EwfImage.Publication.Crash
import EwfImage.Publication.Frame
import EwfImage.Publication.Feasible
import EwfImage.Publication.Siblings
import EwfImage.Acquisition.Writer
import EwfImage.Acquisition.Source
import EwfImage.Acquisition.Effects
import EwfImage.Acquisition.Consistent
import EwfImage.Acquisition.Budget
import EwfImage.Acquisition.Provenance
import EwfImage.Acquisition.Loop
import EwfImage.Acquisition.Turns
import EwfImage.Acquisition.Faithful
import EwfImage.Acquisition.Sessions
import EwfImage.Acquisition.Continuation
import EwfImage.Lib.LruCache
import EwfImage.Lib.Faults
import EwfImage.Reading.Reader
import EwfImage.Reading.Strict
import EwfImage.Reading.Media
import EwfImage.Reading.Policy
import EwfImage.Reading.History
import EwfImage.Reading.TablePages
import EwfImage.Image.Geometry
import EwfImage.Writer.Geometry
import EwfImage.Writer.MetadataTexts
import EwfImage.Lib.Queries
import EwfImage.Lib.Delivery
import EwfImage.Aff4.Text
import EwfImage.Aff4.Archive
import EwfImage.Aff4.Container
import EwfImage.Aff4.Admission
import EwfImage.Aff4.Open
import EwfImage.Aff4.Reader
import EwfImage.Aff4.Coherent
import EwfImage.Aff4.Denotation
import EwfImage.Aff4.Integrity
import EwfImage.Aff4.Sequential
import EwfImage.Aff4.VerifyAll
import EwfImage.Aff4.History
import EwfImage.Aff4.Linear
import EwfImage.Aff4.Traversal
import EwfImage.Aff4.Findings
import EwfImage.Aff4.Inventory
import EwfImage.Aff4.DiskPages
import EwfImage.Aff4.DiskMaps
import EwfImage.Aff4.MapArithmetic
import EwfImage.Aff4.SingleVolume
import EwfImage.Aff4.Writer
import EwfImage.Aff4.LogicalMetadata
import EwfImage.Aff4.Collect
import EwfImage.Aff4.WriterSession
import EwfImage.Aff4.WriterMembers
import EwfImage.Aff4.WriterGrowth
import EwfImage.Aff4.CollectBudget
import EwfImage.Aff4.CollectWalk
import EwfImage.Aff4.WriterRuns
import EwfImage.Writer.SegmentGroups
import EwfImage.Writer.FinishedGeometry
import EwfImage.Writer.Sequential
import EwfImage.Writer.SequentialCorrect
import EwfImage.Reading.Flights
import EwfImage.Reading.SegmentPool
import EwfImage.Reading.PoolWaiters
import EwfImage.Lib.Spans
import EwfImage.Image.AcquisitionErrors
import EwfImage.Lib.Text
import EwfImage.Lib.Lines
import EwfImage.Lib.Collecting
import EwfImage.Lib.Decimal
import EwfImage.Lib.Utf8
import EwfImage.Lib.Words
import EwfImage.Metadata.DateTime
import EwfImage.Metadata.Calendar
import EwfImage.Metadata.CalendarOrder
import EwfImage.Metadata.DateTimeRoundTrip
import EwfImage.Metadata.XmlPayloads
import EwfImage.Metadata.XmlPayloadsRoundTrip
import EwfImage.Image.HexDigests
import EwfImage.Image.StoredHashes
import EwfImage.Image.StoredHashesOrder
import EwfImage.Lib.Utf16
import EwfImage.Metadata.SingleFileAttributes
import EwfImage.Metadata.SingleFileAttributesRoundTrip
import EwfImage.Reading.SingleFiles
import EwfImage.Reading.SingleFileContent
import EwfImage.Reading.SingleFileHistory
import EwfImage.Reading.Recovery
import EwfImage.Reading.RecoveryAccounting
import EwfImage.Cli.SourceReader
import EwfImage.Cli.Recover
import EwfImage.Cli.Prefetch
import EwfImage.Writer.Ewf1Payloads
import EwfImage.Image.Ewf1PayloadsRoundTrip
import EwfImage.Image.OpenedMetadata
import EwfImage.Image.OpenedSequential
import EwfImage.Image.SequentialReadBack
