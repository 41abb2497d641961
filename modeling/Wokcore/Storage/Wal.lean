import Wokcore.Lib.Call
import Wokcore.Lib.Image
import Wokcore.Lib.Word
import Wokcore.Lib.Json.Text

/-!
# Reading a database past its write-ahead log (`crates/wokcore-storage/src/state/wal.rs`)

The state database is inspected without being opened for writing. If a write-ahead log lies beside
it, the reader replays the log itself: `analyzeWal` finds the last committed frame, `indexWal` notes
for every page where its last committed contents are, and `ReplayedDatabase` reads pages from the
log or from the main file accordingly.

A file is its bytes. `readExact` is a seek and a read, which fails past the end of the file. The
loops of the source run on a fuel argument that is as large as the number of bytes they have to go
through.
-/

set_option autoImplicit false

namespace Wokcore.Storage.Wal

open Lib Outcome

def databaseHeaderBytes : Nat := 100
def walHeaderBytes : Nat := 32
def walFrameHeaderBytes : Nat := 24
def walFormatVersion : UInt32 := 3007000
def walMagic : UInt32 := 0x377f0682
def maxDatabaseBytes : Nat := 128 * 1024 * 1024
def maxWalBytes : Nat := 256 * 1024 * 1024

inductive ChecksumOrder where
  | littleEndian
  | bigEndian
deriving DecidableEq

abbrev Checksum := UInt32 × UInt32

structure WalHeader where
  pageSize : Nat
  salt : Bytes
  checksumOrder : ChecksumOrder
  checksum : Checksum
deriving DecidableEq

structure WalPlan where
  header : WalHeader
  lastCommittedFrame : Nat
  finalPages : Nat
deriving DecidableEq

inductive WalError where
  | io
  | corrupt (message : String)
  | limit (message : String)
deriving DecidableEq

/-! ## Bytes -/

/-- `seek` and `read_exact`. -/
def readExact (file : Bytes) (offset length : Nat) : Except WalError Bytes :=
  if offset + length ≤ file.length then .ok (Image.slice offset length file) else .error .io

/-- `u32::from_be_bytes`. -/
def fromBeBytes (a b c d : UInt8) : UInt32 :=
  .ofNat (((a.toNat * 256 + b.toNat) * 256 + c.toNat) * 256 + d.toNat)

/-- `u32::from_le_bytes`. -/
def fromLeBytes (a b c d : UInt8) : UInt32 := fromBeBytes d c b a

/-- The big-endian `u32` at an offset. -/
def u32At (bytes : Bytes) (offset : Nat) : UInt32 :=
  fromBeBytes (bytes.getD offset 0) (bytes.getD (offset + 1) 0) (bytes.getD (offset + 2) 0)
    (bytes.getD (offset + 3) 0)

def ChecksumOrder.word : ChecksumOrder → UInt8 → UInt8 → UInt8 → UInt8 → UInt32
  | .littleEndian => fromLeBytes
  | .bigEndian => fromBeBytes

/-- `update_checksum`. Bytes after the last whole group of eight are left out. -/
def updateChecksum (order : ChecksumOrder) : Bytes → Checksum → Checksum
  | a :: b :: c :: d :: e :: f :: g :: h :: rest, (x, y) =>
      let x := x + order.word a b c d + y
      let y := y + order.word e f g h + x
      updateChecksum order rest (x, y)
  | _, sum => sum

/-- `is_power_of_two`. -/
def isPowerOfTwo (n : Nat) : Bool := n == 2 ^ n.log2

/-- `(512..=65_536).contains(&page_size) && page_size.is_power_of_two()`. -/
def pageSizeValid (n : Nat) : Bool := decide (512 ≤ n) && decide (n ≤ 65536) && isPowerOfTwo n

/-! ## The main database -/

/-- `inspect_main_database`. -/
def inspectMainDatabase (database : Bytes) (databaseLen : Nat) : Except WalError Nat := do
  rejectIf (decide (databaseLen < databaseHeaderBytes))
    (.corrupt "state database is shorter than its header")
  rejectIf (decide (databaseLen > maxDatabaseBytes))
    (.limit "state database exceeds the inspection limit")
  let header ← readExact database 0 databaseHeaderBytes
  rejectIf (header.take 16 != "SQLite format 3\x00".toList.map fun c => c.toNat.toUInt8)
    (.corrupt "state database header is invalid")
  let encodedPageSize := (header.getD 16 0).toNat * 256 + (header.getD 17 0).toNat
  let pageSize := if encodedPageSize = 1 then 65536 else encodedPageSize
  rejectIf (!pageSizeValid pageSize) (.corrupt "state database page size is invalid")
  rejectIf (databaseLen % pageSize != 0) (.corrupt "state database length is not page aligned")
  return pageSize

/-! ## The log -/

variable (wal : Bytes)

/-- `read_wal_header`. -/
def readWalHeader : Except WalError WalHeader := do
  let bytes ← readExact wal 0 walHeaderBytes
  let magic := u32At bytes 0
  let checksumOrder ← okOr (.corrupt "state database WAL magic is invalid")
    (if magic = walMagic then some .littleEndian else if magic = walMagic ||| 1 then some .bigEndian
      else none)
  rejectIf (u32At bytes 4 != walFormatVersion)
    (.corrupt "state database WAL format version is unsupported")
  let pageSize := (u32At bytes 8).toNat
  rejectIf (!pageSizeValid pageSize) (.corrupt "state database WAL page size is invalid")
  let checksum := updateChecksum checksumOrder (bytes.take 24) (0, 0)
  rejectIf (checksum != (u32At bytes 24, u32At bytes 28))
    (.corrupt "state database WAL header checksum is invalid")
  return { pageSize, salt := Image.slice 16 8 bytes, checksumOrder, checksum }

/-! The header of a frame. -/

variable (frameHeader : Bytes)

def pageNumber : Nat := (u32At frameHeader 0).toNat

def committedPages : Nat := (u32At frameHeader 4).toNat

def frameSalt : Bytes := Image.slice 8 8 frameHeader

def storedChecksum : Checksum := (u32At frameHeader 16, u32At frameHeader 20)

/-- The bytes of a frame with its header. -/
def WalHeader.frameBytes (header : WalHeader) : Nat := walFrameHeaderBytes + header.pageSize

/-- The number of pages of the largest database that is inspected. -/
def WalHeader.maximumPages (header : WalHeader) : Nat := maxDatabaseBytes / header.pageSize

/-- `checked_add` of offsets in the log. -/
def advanceOffset (offset bytes : Nat) : Except WalError Nat :=
  okOr (.corrupt "state database WAL offset overflowed") (checkedAdd u64Max offset bytes)

/-- The loop of `tail_contains_commit`. -/
def tailContainsCommit (wal : Bytes) (walLen : Nat) (header : WalHeader) : Nat → Nat →
    Except WalError Bool
  | 0, _ => .ok false
  | fuel + 1, offset =>
      if walLen - offset ≥ header.frameBytes then do
        let frameHeader ← readExact wal offset walFrameHeaderBytes
        if frameSalt frameHeader ≠ header.salt then return false
        else if committedPages frameHeader ≠ 0 then return true
        else
          let next ← advanceOffset offset header.frameBytes
          tailContainsCommit wal walLen header fuel next
      else .ok false

/-- The checksum of a page, read in parts of 8192 bytes. -/
def pageChecksum (wal : Bytes) (order : ChecksumOrder) : Nat → Nat → Nat → Checksum →
    Except WalError Checksum
  | 0, _, _, candidate => .ok candidate
  | fuel + 1, offset, remaining, candidate =>
      if remaining > 0 then do
        let length := min remaining 8192
        let scratch ← readExact wal offset length
        pageChecksum wal order fuel (offset + length) (remaining - length)
          (updateChecksum order scratch candidate)
      else .ok candidate

/-- Where the loop of `analyze_wal` has got to. -/
structure Scan where
  checksum : Checksum
  frameIndex : Nat
  lastCommittedFrame : Nat
  finalPages : Nat
  frameOffset : Nat

/-- The body of the loop of `analyze_wal`; `none` is a `break`. -/
def scanFrame (walLen : Nat) (header : WalHeader) (s : Scan) : Except WalError (Option Scan) := do
  let frameHeader ← readExact wal s.frameOffset walFrameHeaderBytes
  if frameSalt frameHeader ≠ header.salt then return none
  else
    rejectIf (pageNumber frameHeader == 0)
      (.corrupt "state database WAL contains a zero page number")
    rejectIf (decide (pageNumber frameHeader > header.maximumPages))
      (.limit "state database WAL contains an invalid page number")
    rejectIf (decide (committedPages frameHeader > header.maximumPages))
      (.limit "state database WAL commit exceeds the inspection limit")
    let candidate ← pageChecksum wal header.checksumOrder header.pageSize
      (s.frameOffset + walFrameHeaderBytes) header.pageSize
      (updateChecksum header.checksumOrder (frameHeader.take 8) s.checksum)
    if candidate ≠ storedChecksum frameHeader then
      let damaged ← if committedPages frameHeader ≠ 0 then pure true
        else tailContainsCommit wal walLen header walLen (s.frameOffset + header.frameBytes)
      rejectIf damaged (.corrupt "state database WAL contains a damaged committed frame")
      return none
    else
      rejectIf (committedPages frameHeader != 0 && decide
        (pageNumber frameHeader > committedPages frameHeader))
        (.corrupt "state database WAL commit references a page beyond the database")
      let frameOffset ← advanceOffset s.frameOffset header.frameBytes
      return some {
        checksum := candidate
        frameIndex := s.frameIndex + 1
        lastCommittedFrame := if committedPages frameHeader ≠ 0 then s.frameIndex + 1
          else s.lastCommittedFrame
        finalPages := if committedPages frameHeader ≠ 0 then committedPages frameHeader
          else s.finalPages
        frameOffset }

/-- The loop of `analyze_wal`. -/
def scanFrames (wal : Bytes) (walLen : Nat) (header : WalHeader) : Nat → Scan → Except WalError Scan
  | 0, s => .ok s
  | fuel + 1, s =>
      if walLen - s.frameOffset ≥ header.frameBytes then do
        match ← scanFrame wal walLen header s with
        | none => return s
        | some next => scanFrames wal walLen header fuel next
      else .ok s

/-- `analyze_wal`. -/
def analyzeWal (walLen mainPageSize mainPages : Nat) : Except WalError WalPlan := do
  rejectIf (decide (walLen < walHeaderBytes))
    (.corrupt "state database WAL is shorter than its header")
  rejectIf (decide (walLen > maxWalBytes))
    (.limit "state database WAL exceeds the inspection limit")
  let header ← readWalHeader wal
  rejectIf (header.pageSize != mainPageSize)
    (.corrupt "state database WAL page size does not match the database")
  let s ← scanFrames wal walLen header walLen
    { checksum := header.checksum, frameIndex := 0, lastCommittedFrame := 0
      finalPages := mainPages, frameOffset := walHeaderBytes }
  return { header, lastCommittedFrame := s.lastCommittedFrame, finalPages := s.finalPages }

/-- `pages[first_removed..].fill(0)`. -/
def clearFrom (firstRemoved : Nat) (pages : List Nat) : List Nat :=
  pages.take firstRemoved ++ List.replicate (pages.length - firstRemoved) 0

/-- The body of the loop of `index_wal`: the table of pages and the limit of the main file. -/
def indexFrame (frameBytes : Nat) (t : List Nat × Nat) (frameIndex : Nat) :
    Except WalError (List Nat × Nat) := do
  let frameOffset ← advanceOffset walHeaderBytes (frameIndex * frameBytes)
  let frameHeader ← readExact wal frameOffset walFrameHeaderBytes
  let pages := t.1.set (pageNumber frameHeader) (frameOffset + walFrameHeaderBytes)
  if committedPages frameHeader ≠ 0 then
    return (clearFrom (min (committedPages frameHeader + 1) pages.length) pages,
      min t.2 (committedPages frameHeader))
  else return (pages, t.2)

/-- `index_wal`. -/
def indexWal (walLen : Nat) (expected : WalPlan) (mainPages : Nat) :
    Except WalError (List Nat × Nat) := do
  let observed ← analyzeWal wal walLen expected.header.pageSize mainPages
  rejectIf (observed != expected) (.corrupt "state database WAL changed during inspection")
  (List.range expected.lastCommittedFrame).foldlM (indexFrame wal expected.header.frameBytes)
    (List.replicate (expected.finalPages + 1) 0, mainPages)

/-! ## The replayed database -/

structure ReplayedDatabase where
  database : Bytes
  wal : Bytes
  walPages : List Nat
  mainPageLimit : Nat
  mainLen : Nat
  pageSize : Nat
  position : Nat

namespace ReplayedDatabase

/-- What the file is told about its journal: both versions are made 1, so that no log is looked
    for. -/
def patchHeader (position : Nat) (target : Bytes) : Bytes :=
  if position < 20 ∧ position + target.length > 18 then
    [18, 19].foldl (fun target headerOffset =>
      if position ≤ headerOffset ∧ headerOffset < position + target.length then target.set
        (headerOffset - position) 1
      else target) target
  else target

/-- The bytes of one pass of the loop of `read`: within one page. -/
def readPart (length : Nat) (r : ReplayedDatabase) : Except WalError Bytes := do
  let pageNumber := r.position / r.pageSize + 1
  rejectIf (decide (pageNumber > u32Max)) .io
  let withinPage := r.position % r.pageSize
  let frameOffset := r.walPages.getD pageNumber 0
  if frameOffset ≠ 0 then readExact r.wal (frameOffset + withinPage) length
  else if pageNumber ≤ r.mainPageLimit ∧ r.position < r.mainLen
    then readExact r.database r.position length
  else return List.replicate length 0

/-- The loop of `read`. -/
def readLoop : Nat → Nat → Call WalError ReplayedDatabase Bytes
  | 0, _ => pure []
  | fuel + 1, room =>
      if room > 0 then do
        let r ← get
        let length := min (r.pageSize - r.position % r.pageSize) room
        let target ← Call.lift (readPart length r)
        set { r with position := r.position + length }
        let rest ← readLoop fuel (room - length)
        return patchHeader r.position target ++ rest
      else pure []

/-- `ReplayedDatabase::read` into a buffer of a size. -/
def read (size : Nat) : Call WalError ReplayedDatabase Bytes := readLoop size size

end ReplayedDatabase

/-- `open_replayed`, up to the database in memory. Its bytes are read in one call. -/
def openReplayed (database wal : Bytes) : Except WalError Bytes := do
  let mainPageSize ← inspectMainDatabase database database.length
  let mainPages := database.length / mainPageSize
  rejectIf (decide (mainPages > u32Max))
    (.corrupt "state database page count exceeds the inspection limit")
  let plan ← analyzeWal wal wal.length mainPageSize mainPages
  let (walPages, mainPageLimit) ← indexWal wal wal.length plan mainPages
  let finalLen := plan.finalPages * mainPageSize
  rejectIf (decide (finalLen > u64Max)) (.limit "replayed state database size overflowed")
  rejectIf (finalLen == 0 || decide (finalLen > maxDatabaseBytes))
    (.limit "replayed state database exceeds the inspection limit")
  let reader : ReplayedDatabase :=
    { database, wal, walPages, mainPageLimit, mainLen := database.length
      pageSize := mainPageSize, position := 0 }
  let r ← (ReplayedDatabase.read finalLen).outcome reader
  return r.2

end Wokcore.Storage.Wal
