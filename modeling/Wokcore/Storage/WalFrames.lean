import Mathlib.Data.List.DropRight
import Wokcore.Storage.Wal

/-!
# The frames of a log

The loops of `analyze_wal` go through the bytes of the log; what they find is said over its list of
frames. `checkFrames` is the loop as a recursion over that list, and `analyzeWal_eq_ok` says that
`analyze_wal` is that recursion. A frame is valid if it has the salt of the header and its checksum
continues the checksums before it; `validFrames` is the longest run of valid frames the log starts
with and `committed` what of it is committed.
-/

set_option autoImplicit false

namespace Wokcore.Storage.Wal

open Lib Outcome Image Scan List

/-- A frame: its header and its page. -/
structure Frame where
  header : Bytes
  page : Bytes

namespace Frame

def pageNumber (f : Frame) : Nat := Wal.pageNumber f.header

/-- The number of pages of the database after the transaction, zero for a frame that does not end
    one. -/
def committedPages (f : Frame) : Nat := Wal.committedPages f.header

def salt (f : Frame) : Bytes := frameSalt f.header

def stored (f : Frame) : Checksum := storedChecksum f.header

/-- The checksum of the log up to and with this frame. -/
def checksum (order : ChecksumOrder) (f : Frame) (sum : Checksum) : Checksum :=
  updateChecksum order f.page (updateChecksum order (f.header.take 8) sum)

def bytes (f : Frame) : Bytes := f.header ++ f.page

end Frame

/-- The frame at an offset of a log. -/
def frameAt (wal : Bytes) (pageSize offset : Nat) : Frame where
  header := slice offset walFrameHeaderBytes wal
  page := slice (offset + walFrameHeaderBytes) pageSize wal

/-- So many frames from an offset on. -/
def framesFrom (wal : Bytes) (pageSize : Nat) : Nat → Nat → List Frame
  | 0, _ => []
  | count + 1, offset =>
      frameAt wal pageSize offset :: framesFrom wal pageSize count
        (offset + (walFrameHeaderBytes + pageSize))

/-- The whole frames of a log. -/
def frames (wal : Bytes) (pageSize : Nat) : List Frame :=
  framesFrom wal pageSize ((wal.length - walHeaderBytes) / (walFrameHeaderBytes + pageSize))
    walHeaderBytes

/-- A frame that continues the log: its salt is the header's and its checksum is the log's so
    far. -/
def Frame.Valid (order : ChecksumOrder) (salt : Bytes) (sum : Checksum) (f : Frame) : Prop :=
  f.salt = salt ∧ f.checksum order sum = f.stored

instance (order : ChecksumOrder) (salt : Bytes) (sum : Checksum) (f : Frame) :
    Decidable (f.Valid order salt sum) :=
  inferInstanceAs (Decidable (_ ∧ _))

/-- The longest run of frames with the salt and with checksums that continue `sum`. -/
def validFrames (order : ChecksumOrder) (salt : Bytes) : Checksum → List Frame → List Frame
  | _, [] => []
  | sum, f :: fs =>
      if f.Valid order salt sum then f :: validFrames order salt (f.checksum order sum) fs else []

/-- The frames up to the last one that ends a transaction. -/
def committed (fs : List Frame) : List Frame := fs.rdropWhile fun f => f.committedPages == 0

/-! ## The loops, over frames -/

/-- `tail_contains_commit`. -/
def anyCommit (salt : Bytes) : List Frame → Bool
  | [] => false
  | f :: fs =>
    if f.salt ≠ salt then false else if f.committedPages ≠ 0 then true else anyCommit salt fs

/-- What the loop of `analyze_wal` has after a frame it takes. -/
def Scan.advance (header : WalHeader) (s : Scan) (f : Frame) : Scan where
  checksum := f.checksum header.checksumOrder s.checksum
  frameIndex := s.frameIndex + 1
  lastCommittedFrame := if f.committedPages ≠ 0 then s.frameIndex + 1 else s.lastCommittedFrame
  finalPages := if f.committedPages ≠ 0 then f.committedPages else s.finalPages
  frameOffset := s.frameOffset + header.frameBytes

/-- The body of the loop of `analyze_wal`, for a frame and the frames after it. -/
def checkFrame (header : WalHeader) (f : Frame) (rest : List Frame) (s : Scan) : Except WalError
    (Option Scan) := do
  if f.salt ≠ header.salt then return none
  else
    rejectIf (f.pageNumber == 0) (.corrupt "state database WAL contains a zero page number")
    rejectIf (decide (f.pageNumber > header.maximumPages))
      (.limit "state database WAL contains an invalid page number")
    rejectIf (decide (f.committedPages > header.maximumPages))
      (.limit "state database WAL commit exceeds the inspection limit")
    if f.checksum header.checksumOrder s.checksum ≠ f.stored then
      let damaged ← if f.committedPages ≠ 0 then pure true else pure (anyCommit header.salt rest)
      rejectIf damaged (.corrupt "state database WAL contains a damaged committed frame")
      return none
    else
      rejectIf (f.committedPages != 0 && decide (f.pageNumber > f.committedPages))
        (.corrupt "state database WAL commit references a page beyond the database")
      return some (s.advance header f)

/-- The loop of `analyze_wal`. -/
def checkFrames (header : WalHeader) : List Frame → Scan → Except WalError Scan
  | [], s => .ok s
  | f :: fs, s => do
      match ← checkFrame header f fs s with
      | none => return s
      | some next => checkFrames header fs next

/-- What is asked of the numbers of a valid frame. -/
structure Frame.InRange (maximumPages : Nat) (f : Frame) : Prop where
  nonzero : f.pageNumber ≠ 0
  page_le : f.pageNumber ≤ maximumPages
  committed_le : f.committedPages ≤ maximumPages
  commit : f.committedPages ≠ 0 → f.pageNumber ≤ f.committedPages

variable {rest : List Frame}

theorem checkFrame_eq_some {header : WalHeader} {f : Frame} {s next : Scan} :
    checkFrame header f rest s = .ok (some next) ↔
      f.Valid header.checksumOrder header.salt s.checksum ∧ f.InRange header.maximumPages ∧
      next = s.advance header f := by
  unfold checkFrame
  by_cases hsalt : f.salt = header.salt
  swap
  · rw [if_pos hsalt]
    exact ⟨fun h => (by cases h), fun h => absurd h.1.1 hsalt⟩
  rw [if_neg (by simpa using hsalt)]
  by_cases hsum : f.checksum header.checksumOrder s.checksum = f.stored
  · simp only [hsum, ne_eq, not_true_eq_false, if_false, do_ok, rejectIf_eq_ok, Option.some.injEq,
      beq_eq_false_iff_ne, decide_eq_false_iff_not, Nat.not_lt, Bool.and_eq_false_imp, bne_iff_ne]
    constructor
    · rintro ⟨hnonzero, hpage, hcommitted, hcommit, rfl⟩
      exact ⟨⟨hsalt, hsum⟩, ⟨hnonzero, hpage, hcommitted, hcommit⟩, rfl⟩
    · rintro ⟨-, hrange, rfl⟩
      exact ⟨hrange.nonzero, hrange.page_le, hrange.committed_le, hrange.commit, rfl⟩
  · rw [if_pos hsum]
    constructor
    · -- a damaged frame ends the scan or fails it
      intro h
      simp only [do_ok] at h
      obtain ⟨-, -, -, h⟩ := h
      split at h
      · cases h
      · obtain ⟨_, -, h⟩ := do_eq_ok.mp h
        obtain ⟨_, -, h⟩ := do_eq_ok.mp h
        cases h
    · rintro ⟨hvalid, -, -⟩
      exact absurd hvalid.2 hsum

/-- The scan stops only at a frame that is not valid. -/
theorem not_valid_of_checkFrame {header : WalHeader} {f : Frame} {s : Scan}
    (h : checkFrame header f rest s = .ok none) :
    ¬ f.Valid header.checksumOrder header.salt s.checksum := by
  rintro ⟨hsalt, hsum⟩
  unfold checkFrame at h
  rw [if_neg (by simpa using hsalt)] at h
  simp only [hsum, ne_eq, not_true_eq_false, if_false, do_ok, reduceCtorEq, and_false,
    exists_false] at h

/-! ## Checksums -/

variable {order : ChecksumOrder}

theorem updateChecksum_append {xs : Bytes} (ys : Bytes) (sum : Checksum) (h : 8 ∣ xs.length) :
    updateChecksum order (xs ++ ys) sum = updateChecksum order ys
    (updateChecksum order xs sum) := by
  fun_induction updateChecksum order xs sum with
  | case1 a b c d e f g h' rest x y x' y' ih =>
    have hrest : 8 ∣ rest.length := by
      simp only [length_cons] at h
      omega
    exact ih hrest
  | case2 xs sum hshort =>
    -- fewer than eight bytes, and a multiple of eight
    rcases xs with _ | ⟨a, _ | ⟨b, _ | ⟨c, _ | ⟨d, _ | ⟨e, _ | ⟨f, _ | ⟨g, _ | ⟨h', rest⟩⟩⟩⟩⟩⟩⟩⟩
    · rfl
    all_goals try (simp only [length_cons, length_nil] at h; omega)
    obtain ⟨x, y⟩ := sum
    exact absurd rfl (hshort a b c d e f g h' rest x y rfl)

theorem readExact_of_le {file : Bytes} {offset length : Nat} (h : offset + length ≤ file.length) :
    readExact file offset length = .ok (slice offset length file) := if_pos h

/-- The checksum of a page does not depend on the parts it is read in. -/
theorem pageChecksum_eq {wal : Bytes} {fuel offset remaining : Nat} {sum : Checksum}
    (hfuel : remaining ≤ fuel) (hwords : 8 ∣ remaining)
    (hinside : offset + remaining ≤ wal.length) :
    pageChecksum wal order fuel offset remaining sum =
      .ok (updateChecksum order (slice offset remaining wal) sum) := by
  induction fuel generalizing offset remaining sum with
  | zero =>
    obtain rfl : remaining = 0 := by omega
    rfl
  | succ fuel ih =>
    simp only [pageChecksum]
    rcases Nat.eq_zero_or_pos remaining with rfl | hpos
    · rfl
    · have hlength : 8 ∣ min remaining 8192 := by omega
      rw [if_pos hpos, readExact_of_le (by omega), ok_bind, ih (by omega) (by omega) (by omega),
        ← updateChecksum_append _ _ (by rw [length_slice (by omega)]; exact hlength),
        slice_append_slice, Nat.add_sub_of_le (Nat.min_le_left remaining 8192)]

/-! ## The frames the loops see -/

section Loops

variable {wal : Bytes} {header : WalHeader} {offset count : Nat}

/-- There are so many whole frames from an offset on. -/
structure Spans (wal : Bytes) (frameBytes offset count : Nat) : Prop where
  inside : offset + count * frameBytes ≤ wal.length
  outside : wal.length < offset + count * frameBytes + frameBytes

theorem frameBytes_pos (header : WalHeader) : 0 < header.frameBytes := by
  rw [WalHeader.frameBytes, walFrameHeaderBytes]
  omega

theorem Spans.frameBytes_le (h : Spans wal header.frameBytes offset (count + 1)) :
    header.frameBytes ≤ wal.length - offset ∧ offset ≤ wal.length := by
  have hinside := h.inside
  rw [Nat.succ_mul] at hinside
  omega

theorem Spans.next (h : Spans wal header.frameBytes offset (count + 1)) :
    Spans wal header.frameBytes (offset + header.frameBytes) count := by
  have hinside := h.inside
  have houtside := h.outside
  rw [Nat.succ_mul] at hinside houtside
  exact ⟨by omega, by omega⟩

theorem Spans.not_le (h : Spans wal header.frameBytes offset 0) :
    ¬ wal.length - offset ≥ header.frameBytes := by
  have houtside := h.outside
  have hpos := frameBytes_pos header
  omega

theorem Spans.readExact_header (h : Spans wal header.frameBytes offset (count + 1)) :
    readExact wal offset walFrameHeaderBytes = .ok (slice offset walFrameHeaderBytes wal) := by
  have hle := h.frameBytes_le
  rw [WalHeader.frameBytes] at hle
  exact readExact_of_le (by omega)

theorem Spans.advanceOffset (h : Spans wal header.frameBytes offset (count + 1))
    (hwal : wal.length ≤ maxWalBytes) :
    advanceOffset offset header.frameBytes = .ok (offset + header.frameBytes) := by
  have hmax : maxWalBytes ≤ u64Max := by decide
  have hle := h.frameBytes_le
  exact okOr_eq_ok.mpr (checkedAdd_eq_some.mpr ⟨by omega, rfl⟩)

theorem tailContainsCommit_eq {fuel : Nat} (hwal : wal.length ≤ maxWalBytes)
    (h : Spans wal header.frameBytes offset count) (hfuel : count ≤ fuel) :
    tailContainsCommit wal wal.length header fuel offset =
      .ok (anyCommit header.salt (framesFrom wal header.pageSize count offset)) := by
  induction count generalizing offset fuel with
  | zero =>
    cases fuel with
    | zero => rfl
    | succ fuel => rw [tailContainsCommit, if_neg h.not_le]; rfl
  | succ count ih =>
    obtain ⟨fuel, rfl⟩ : ∃ n, fuel = n + 1 := ⟨fuel - 1, by omega⟩
    rw [tailContainsCommit, if_pos h.frameBytes_le.1, h.readExact_header, ok_bind, framesFrom,
      anyCommit]
    show (if frameSalt (slice offset walFrameHeaderBytes wal) ≠ header.salt then _ else _) =
      Except.ok (if frameSalt (slice offset walFrameHeaderBytes wal) ≠ header.salt then _ else _)
    split
    · rfl
    · show (if committedPages (slice offset walFrameHeaderBytes wal) ≠ 0 then _ else _) =
        Except.ok (if committedPages (slice offset walFrameHeaderBytes wal) ≠ 0 then _ else _)
      split
      · rfl
      · rw [h.advanceOffset hwal, ok_bind]
        exact ih h.next (by omega)

/-- The body of the loop, for the frame it reads and the frames that follow. -/
theorem scanFrame_eq {s : Scan} (hwal : wal.length ≤ maxWalBytes) (hwords : 8 ∣ header.pageSize)
    (h : Spans wal header.frameBytes s.frameOffset (count + 1)) :
    scanFrame wal wal.length header s = checkFrame header
      (frameAt wal header.pageSize s.frameOffset)
      (framesFrom wal header.pageSize count (s.frameOffset + header.frameBytes)) s := by
  have hle := h.frameBytes_le
  have hcount : count ≤ wal.length := by
    have hinside := h.inside
    have hmul : count + 1 ≤ (count + 1) * header.frameBytes :=
      Nat.le_mul_of_pos_right _ (frameBytes_pos header)
    omega
  have hpage : ∀ sum, pageChecksum wal header.checksumOrder header.pageSize
      (s.frameOffset + walFrameHeaderBytes) header.pageSize sum =
        .ok (updateChecksum header.checksumOrder (frameAt wal header.pageSize s.frameOffset).page
          sum) := by
    intro sum
    rw [WalHeader.frameBytes] at hle
    exact pageChecksum_eq (Nat.le_refl _) hwords (by omega)
  rw [scanFrame, h.readExact_header, ok_bind, tailContainsCommit_eq hwal h.next hcount,
    h.advanceOffset hwal]
  simp only [hpage, ok_bind]
  rfl

theorem scanFrames_eq {fuel : Nat} {s : Scan} (hwal : wal.length ≤ maxWalBytes)
    (hwords : 8 ∣ header.pageSize) (h : Spans wal header.frameBytes s.frameOffset count)
    (hfuel : count ≤ fuel) :
    scanFrames wal wal.length header fuel s =
      checkFrames header (framesFrom wal header.pageSize count s.frameOffset) s := by
  induction count generalizing s fuel with
  | zero =>
    cases fuel with
    | zero => rfl
    | succ fuel => rw [scanFrames, if_neg h.not_le]; rfl
  | succ count ih =>
    obtain ⟨fuel, rfl⟩ : ∃ n, fuel = n + 1 := ⟨fuel - 1, by omega⟩
    have hscan := scanFrame_eq hwal hwords h
    rw [scanFrames, if_pos h.frameBytes_le.1, framesFrom, checkFrames]
    show _ = (checkFrame header (frameAt wal header.pageSize s.frameOffset)
      (framesFrom wal header.pageSize count (s.frameOffset + header.frameBytes)) s >>= _)
    rw [← hscan]
    cases hcheck : scanFrame wal wal.length header s with
    | error e => rfl
    | ok next =>
      cases next with
      | none => rfl
      | some next =>
        obtain ⟨-, -, rfl⟩ := checkFrame_eq_some.mp (hscan.symm.trans hcheck)
        exact ih h.next (by omega)

end Loops

/-! ## The analysis -/

section Analysis

variable {wal : Bytes} {header : WalHeader} {mainPages : Nat}

theorem eight_dvd_of_pageSizeValid {n : Nat} (h : pageSizeValid n = true) : 8 ∣ n ∧ 0 < n := by
  rw [pageSizeValid, Bool.and_eq_true, Bool.and_eq_true, decide_eq_true_eq, isPowerOfTwo,
    beq_iff_eq] at h
  obtain ⟨⟨hmin, -⟩, hpower⟩ := h
  have hlog : 3 ≤ n.log2 := by
    rcases Nat.lt_or_ge n.log2 3 with hsmall | hlarge
    · have hpow : 2 ^ n.log2 < 2 ^ 3 := Nat.pow_lt_pow_right (by decide) hsmall
      omega
    · exact hlarge
  refine ⟨?_, by omega⟩
  rw [hpower]
  exact Nat.pow_dvd_pow 2 hlog

/-- A log that is neither too short nor too long. -/
structure Sized (wal : Bytes) : Prop where
  header_le : walHeaderBytes ≤ wal.length
  le_max : wal.length ≤ maxWalBytes

/-- The state the scan starts in. -/
def Scan.start (header : WalHeader) (mainPages : Nat) : Scan where
  checksum := header.checksum
  frameIndex := 0
  lastCommittedFrame := 0
  finalPages := mainPages
  frameOffset := walHeaderBytes

theorem spans_frames (hsized : Sized wal) : Spans wal header.frameBytes walHeaderBytes
    ((wal.length - walHeaderBytes) / header.frameBytes) := by
  have hdiv := Nat.div_mul_le_self (wal.length - walHeaderBytes) header.frameBytes
  have hlt := Nat.lt_div_mul_add (frameBytes_pos header) (a := wal.length - walHeaderBytes)
  have hheader := hsized.header_le
  exact ⟨by omega, by omega⟩

theorem pageSizeValid_of_readWalHeader (h : readWalHeader wal = .ok header) :
    pageSizeValid header.pageSize = true := by
  simp only [readWalHeader, do_ok, rejectIf_eq_ok] at h
  obtain ⟨bytes, -, order, -, -, hsize, -, rfl⟩ := h
  simpa using hsize

theorem scanFrames_start (hsized : Sized wal) (hread : readWalHeader wal = .ok header) :
    scanFrames wal wal.length header wal.length (start header mainPages) =
      checkFrames header (frames wal header.pageSize) (start header mainPages) := by
  refine scanFrames_eq hsized.le_max
    (eight_dvd_of_pageSizeValid (pageSizeValid_of_readWalHeader hread)).1 (spans_frames hsized) ?_
  exact Nat.le_trans (Nat.div_le_self _ _) (Nat.sub_le _ _)

/-- What the analysis answers once the header is read. -/
theorem analyzeWal_of_sized (hsized : Sized wal) (hread : readWalHeader wal = .ok header) :
    analyzeWal wal wal.length header.pageSize mainPages =
      (checkFrames header (frames wal header.pageSize) (start header mainPages)).map
        fun s => ⟨header, s.lastCommittedFrame, s.finalPages⟩ := by
  have hheader : decide (wal.length < walHeaderBytes) = false := by simpa using hsized.header_le
  have hmax : decide (wal.length > maxWalBytes) = false := by simpa using hsized.le_max
  rw [← scanFrames_start hsized hread, analyzeWal, hheader, hmax, hread]
  simp only [rejectIf, Bool.false_eq_true, if_false, ok_bind, bne_self_eq_false]
  show scanFrames wal wal.length header wal.length (start header mainPages) >>= _ = _
  cases scanFrames wal wal.length header wal.length (start header mainPages) with
  | error | ok => rfl

/-- **The analysis of a log** is that of its list of frames. -/
theorem analyzeWal_eq_ok {pageSize : Nat} {plan : WalPlan} :
    analyzeWal wal wal.length pageSize mainPages = .ok plan ↔ Sized wal ∧ ∃ header s,
      readWalHeader wal = .ok header ∧ header.pageSize = pageSize ∧
      checkFrames header (frames wal pageSize) (start header mainPages) = .ok s ∧
      plan = ⟨header, s.lastCommittedFrame, s.finalPages⟩ := by
  simp only [analyzeWal, do_ok, rejectIf_eq_ok, decide_eq_false_iff_not, Nat.not_lt,
    bne_eq_false_iff_eq]
  constructor
  · rintro ⟨hheader, hmax, header, hread, rfl, s, hscan, rfl⟩
    have hsized : Sized wal := ⟨hheader, hmax⟩
    exact ⟨hsized, header, s, hread, rfl, (scanFrames_start hsized hread).symm.trans hscan, rfl⟩
  · rintro ⟨hsized, header, s, hread, rfl, hcheck, rfl⟩
    exact ⟨hsized.header_le, hsized.le_max, header, hread, rfl, s,
      (scanFrames_start hsized hread).trans hcheck, rfl⟩

/-- A scan that ends well has gone through the valid frames, and their numbers were in range. -/
theorem checkFrames_eq_ok {fs : List Frame} {s t : Scan} (h : checkFrames header fs s = .ok t) :
    t = (validFrames header.checksumOrder header.salt s.checksum fs).foldl (advance header) s ∧
      ∀ f ∈ validFrames header.checksumOrder header.salt s.checksum fs,
      f.InRange header.maximumPages := by
  induction fs generalizing s with
  | nil =>
    cases h
    exact ⟨rfl, by simp [validFrames]⟩
  | cons f fs ih =>
    rw [checkFrames, do_eq_ok] at h
    obtain ⟨next, hcheck, h⟩ := h
    rw [validFrames]
    cases next with
    | none =>
      cases h
      rw [if_neg (not_valid_of_checkFrame hcheck)]
      exact ⟨rfl, by simp⟩
    | some next =>
      obtain ⟨hvalid, hrange, rfl⟩ := checkFrame_eq_some.mp hcheck
      obtain ⟨ht, hall⟩ := ih h
      rw [if_pos hvalid]
      exact ⟨ht, forall_mem_cons.mpr ⟨hrange, hall⟩⟩

/-! ### What is committed -/

theorem committed_concat (fs : List Frame) (f : Frame) :
    committed (fs ++ [f]) = if f.committedPages = 0 then committed fs else fs ++ [f] := by
  rw [committed, rdropWhile_concat]
  by_cases h : f.committedPages = 0
  · rw [if_pos (by simpa using h), if_pos h]
    rfl
  · rw [if_neg (by simpa using h), if_neg h]

/-- The number of pages after the last transaction of a log. -/
def finalPages (mainPages : Nat) (fs : List Frame) : Nat :=
  ((committed fs).getLast?.map Frame.committedPages).getD mainPages

/-- The plan of a log: the number of committed frames, and the size of the database after them. -/
theorem foldl_advance (fs : List Frame) :
    (fs.foldl (advance header) (start header mainPages)).frameIndex = fs.length ∧
    (fs.foldl (advance header) (start header mainPages)).lastCommittedFrame =
    (committed fs).length ∧ (fs.foldl (advance header) (start header mainPages)).finalPages =
      finalPages mainPages fs := by
  induction fs using reverseRecOn with
  | nil => exact ⟨rfl, rfl, rfl⟩
  | append_singleton fs f ih =>
    obtain ⟨hindex, hlast, hfinal⟩ := ih
    rw [foldl_append, foldl_cons, foldl_nil, finalPages, committed_concat]
    refine ⟨?_, ?_, ?_⟩
    · rw [length_append, length_singleton, ← hindex]
      rfl
    · by_cases h : f.committedPages = 0
      · rw [if_pos h, ← hlast]
        exact if_neg (by simpa using h)
      · rw [if_neg h, length_append, length_singleton, ← hindex]
        exact if_pos h
    · by_cases h : f.committedPages = 0
      · rw [if_pos h, ← finalPages, ← hfinal]
        exact if_neg (by simpa using h)
      · rw [if_neg h, getLast?_concat]
        exact if_pos h

end Analysis

end Wokcore.Storage.Wal
