import EwfImage.Metadata.Session
import EwfImage.Metadata.XmlPayloads
import EwfImage.Writer.Ewf1Segment

/-!
# Payloads of EWF1 metadata sections

The sections that the writer makes of its digests, acquisition errors and sessions. The header
texts and the catalog of a logical image stay parameters.

The encoders are gathered in one record, so that a result about segments holds for every choice
of the parameters. A payload that has nothing to say is absent, and its section with it.
-/

namespace EwfImage

open Fallible Ewf1 LittleEndian Word

/-- `digest_payload`: the digests in front of a checksum. -/
def digestPayload (hashes : WriteHashes) : Option Bytes :=
  if hashes.md5 = none ∧ hashes.sha1 = none then none
  else
    let digest := List.replicate 76 0
    let digest := hashes.md5.elim digest (patch digest 0)
    let digest := hashes.sha1.elim digest (patch digest 16)
    some (digest ++ toLE 4 (adler32 digest))

def ewf1Error2Entries : List AcquisitionError → Result Bytes
  | [] => .ok []
  | error :: errors => do
    rejectIf (u32Limit ≤ error.firstSector)
      (.unsupported "EWF1 writer acquisition error first sector exceeds u32")
    rejectIf (u32Limit ≤ error.sectorCount)
      (.unsupported "EWF1 writer acquisition error sector count exceeds u32")
    let entries ← ewf1Error2Entries errors
    return toLE 4 error.firstSector ++ toLE 4 error.sectorCount ++ entries

/-- The part of the header that its checksum is about. -/
def ewf1Error2Header (count : Nat) : Bytes := toLE 4 count ++ List.replicate 512 0

def ewf1Error2Payload (errors : List AcquisitionError) : Result (Option Bytes) :=
  if errors = [] then .ok none
  else do
    rejectIf (u32Limit ≤ errors.length)
      (.unsupported "EWF1 writer acquisition error count exceeds u32")
    let header := ewf1Error2Header errors.length
    let entries ← ewf1Error2Entries errors
    return some (header ++ toLE 4 (adler32 header) ++ entries ++ toLE 4 (adler32 entries))

/-- The encoders of `write_ewf1_segment` with these header texts and this catalog. -/
def ewf1PayloadEncoders (codec : Codec)
    (header header2 xheader ltree : WriteOptions → Result (Option Bytes)) : Ewf1PayloadEncoders where
  header
  header2
  xheader
  ltree
  session options := sessionPayload 1 options.sessions options.tracks
  error2 options := ewf1Error2Payload options.acquisitionErrors
  digest options := .ok (digestPayload options.hashes)
  xhash options :=
    .ok (xhashPayload (codec.zlibEncode options.compressionValues.level) options.hashes)

end EwfImage
