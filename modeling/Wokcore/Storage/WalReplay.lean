import Wokcore.Storage.WalTruncation

/-!
# Replaying a log

`replayFrame` says what a log means: a frame writes its page, and a frame that ends a transaction
also sets the size of the database. The reader never builds that image. It keeps, for every page,
the place of its last committed contents in the log, and how many pages of the main file are still
in force. `Indexed` is the invariant between the table and the image, kept by every frame; from it,
what the reader returns is the replayed image, in whatever pieces it is asked for.
-/

set_option autoImplicit false

namespace Wokcore.Storage.Wal

open Lib Outcome ReplayedDatabase Image List

/-! ## What a log means -/

/-- The image after a frame. -/
def replayFrame (pageSize : Nat) (image : Bytes) (f : Frame) : Bytes :=
  let image := writeAt 0 ((f.pageNumber - 1) * pageSize) f.page image
  if f.committedPages = 0 then image else setLen 0 (f.committedPages * pageSize) image

/-- The frames of the transactions that the log has committed. -/
def committedFrames (header : WalHeader) (wal : Bytes) : List Frame :=
  committed (validFrames header.checksumOrder header.salt header.checksum
    (frames wal header.pageSize))

/-- The database that a main file and a log stand for. -/
def replay (header : WalHeader) (main wal : Bytes) : Bytes :=
  (committedFrames header wal).foldl (replayFrame header.pageSize) main

/-- The image that asks for no log: both versions of the format are 1. -/
def withoutLog (image : Bytes) : Bytes := (image.set 18 1).set 19 1

theorem length_foldl_committed {pageSize mainPages : Nat} {main : Bytes}
    (hmain : main.length = mainPages * pageSize) (fs : List Frame) :
    ((committed fs).foldl (replayFrame pageSize) main).length =
      finalPages mainPages fs * pageSize := by
  induction fs using reverseRecOn with
  | nil => exact hmain
  | append_singleton fs f ih =>
    rw [finalPages, committed_concat]
    split
    · exact ih
    · next h =>
      rw [foldl_append, foldl_cons, foldl_nil, replayFrame, if_neg h, length_setLen,
        getLast?_concat]
      rfl

/-! ## The table of pages -/

section Table

variable {wal main image : Bytes} {pageSize mainPages slots : Nat} {pages : List Nat} {limit : Nat}

/-- The byte that the table gives for a position. -/
def source (wal main : Bytes) (pageSize : Nat) (pages : List Nat) (limit i : Nat) : UInt8 :=
  if pages.getD (i / pageSize + 1) 0 ≠ 0 then wal.getD
    (pages.getD (i / pageSize + 1) 0 + i % pageSize) 0
  else if i / pageSize + 1 ≤ limit then main.getD i 0 else 0

/-- The table gives the image. -/
structure Indexed (wal main : Bytes) (pageSize mainPages slots : Nat) (pages : List Nat)
    (limit : Nat) (image : Bytes) : Prop where
  length : pages.length = slots
  reads : ∀ i, i / pageSize + 1 < slots → image.getD i 0 = source wal main pageSize pages limit i
  inside : ∀ p, pages.getD p 0 ≠ 0 → pages.getD p 0 + pageSize ≤ wal.length
  limit_le : limit ≤ mainPages

theorem indexed_start (hpos : 0 < pageSize) (hmain : main.length = mainPages * pageSize) :
    Indexed wal main pageSize mainPages slots (replicate slots 0) mainPages main where
  length := length_replicate
  reads := by
    intro i hi
    have hzero : (replicate slots 0).getD (i / pageSize + 1) 0 = 0 := getD_replicate
    rw [source, hzero, if_neg (by simp)]
    split
    · rfl
    · next hbeyond =>
      refine getD_eq_default _ _ ?_
      rw [hmain]
      have hdiv : mainPages ≤ i / pageSize := by omega
      exact (Nat.le_div_iff_mul_le hpos).mp hdiv
  inside := by
    intro p hp
    exact absurd Image.getD_replicate hp
  limit_le := Nat.le_refl _

/-- A position is in a page if its number says so. -/
theorem mem_page_iff {p i : Nat} (hpos : 0 < pageSize) (hp : p ≠ 0) :
    (p - 1) * pageSize ≤ i ∧ i < (p - 1) * pageSize + pageSize ↔ i / pageSize + 1 = p := by
  rw [← Nat.succ_mul, ← Nat.le_div_iff_mul_le hpos, ← Nat.div_lt_iff_lt_mul hpos]
  omega

theorem Indexed.write {p offset : Nat}
    (h : Indexed wal main pageSize mainPages slots pages limit image) (hpos : 0 < pageSize)
    (hp : p ≠ 0) (hoffset : offset ≠ 0) (hinside : offset + pageSize ≤ wal.length) :
    Indexed wal main pageSize mainPages slots (pages.set p offset) limit
      (writeAt 0 ((p - 1) * pageSize) (slice offset pageSize wal) image) where
  length := by rw [length_set, h.length]
  reads := by
    intro i hi
    have hlength : (slice offset pageSize wal).length = pageSize := length_slice hinside
    rw [getD_writeAt, hlength, if_congr (mem_page_iff hpos hp) rfl rfl]
    by_cases hpage : i / pageSize + 1 = p
    · subst hpage
      have hset : (pages.set (i / pageSize + 1) offset).getD (i / pageSize + 1) 0 = offset := by
        rw [getD_eq_getElem?_getD, getElem?_set_self (by rw [h.length]; exact hi)]
        rfl
      have hwithin : i - (i / pageSize + 1 - 1) * pageSize = i % pageSize := by
        rw [Nat.add_sub_cancel, Nat.mul_comm, ← Nat.mod_eq_sub_mul_div]
      rw [if_pos rfl, source, hset, if_pos hoffset, hwithin, getD_slice (Nat.mod_lt i hpos)]
    · have hset : (pages.set p offset).getD (i / pageSize + 1) 0 = pages.getD
          (i / pageSize + 1) 0 := by
        rw [getD_eq_getElem?_getD, getElem?_set_ne (Ne.symm hpage), getD_eq_getElem?_getD]
      rw [if_neg hpage, h.reads i hi, source, source, hset]
  inside := by
    intro q hq
    by_cases hsame : p = q
    · subst hsame
      rcases Nat.lt_or_ge p pages.length with hlt | hge
      · rw [getD_eq_getElem?_getD, getElem?_set_self hlt]
        exact hinside
      · rw [set_eq_of_length_le hge] at hq ⊢
        exact h.inside p hq
    · have hset : (pages.set p offset).getD q 0 = pages.getD q 0 := by
        rw [getD_eq_getElem?_getD, getElem?_set_ne hsame, getD_eq_getElem?_getD]
      rw [hset] at hq ⊢
      exact h.inside q hq
  limit_le := h.limit_le

theorem getD_clearFrom {firstRemoved p : Nat} :
    (clearFrom firstRemoved pages).getD p 0 = if p < firstRemoved then pages.getD p 0 else 0 := by
  rw [clearFrom, getD_append_replicate, getD_take]

theorem Indexed.commit {count : Nat}
    (h : Indexed wal main pageSize mainPages slots pages limit image) (hpos : 0 < pageSize) :
    Indexed wal main pageSize mainPages slots (clearFrom (min (count + 1) pages.length) pages)
      (min limit count) (setLen 0 (count * pageSize) image) where
  length := by
    rw [clearFrom, length_append, length_take, length_replicate, ← h.length]
    omega
  reads := by
    intro i hi
    have hsize : i < count * pageSize ↔ i / pageSize < count := (Nat.div_lt_iff_lt_mul hpos).symm
    rw [getD_setLen, if_congr hsize rfl rfl, source, getD_clearFrom, h.length]
    by_cases hkept : i / pageSize < count
    · have hslot : i / pageSize + 1 < min (count + 1) slots := by omega
      have hlimit : i / pageSize + 1 ≤ min limit count ↔ i / pageSize + 1 ≤ limit := by omega
      rw [if_pos hkept, if_pos hslot, if_congr hlimit rfl rfl, h.reads i hi, source]
    · have hslot : ¬ i / pageSize + 1 < min (count + 1) slots := by omega
      have hlimit : ¬ i / pageSize + 1 ≤ min limit count := by omega
      rw [if_neg hkept, if_neg hslot, if_neg (by simp), if_neg hlimit]
  inside := by
    intro p hp
    rw [getD_clearFrom] at hp ⊢
    split at hp
    · next hlt =>
      rw [if_pos hlt]
      exact h.inside p hp
    · exact absurd rfl hp
  limit_le := Nat.le_trans (Nat.min_le_left _ _) h.limit_le

end Table

/-! ## Indexing a log -/

section Index

variable {wal main : Bytes} {header : WalHeader} {mainPages slots : Nat} {t : List Nat × Nat}

/-- The offset of a frame of a log. -/
def frameOffset (header : WalHeader) (k : Nat) : Nat := walHeaderBytes + k * header.frameBytes

abbrev nthFrame (header : WalHeader) (wal : Bytes) (k : Nat) : Frame :=
  frameAt wal header.pageSize (frameOffset header k)

theorem framesFrom_eq_map (wal : Bytes) (header : WalHeader) (count offset : Nat) :
    framesFrom wal header.pageSize count offset =
      (range count).map fun k => frameAt wal header.pageSize (offset + k * header.frameBytes) := by
  induction count generalizing offset with
  | zero => rfl
  | succ count ih =>
    rw [framesFrom, ih, range_succ_eq_map, map_cons, map_map, Nat.zero_mul, Nat.add_zero]
    congr 2
    funext k
    show frameAt wal header.pageSize
      (offset + (walFrameHeaderBytes + header.pageSize) + k * header.frameBytes) =
        frameAt wal header.pageSize (offset + (k + 1) * header.frameBytes)
    rw [Nat.succ_mul, Nat.add_assoc, Nat.add_comm (k * header.frameBytes)]
    rfl

/-- One frame: the table goes on giving the image. -/
theorem Indexed.frame {k : Nat} {pages : List Nat} {limit : Nat} {image : Bytes}
    (h : Indexed wal main header.pageSize mainPages slots pages limit image)
    (hpos : 0 < header.pageSize) (hinside : frameOffset header k + header.frameBytes ≤ wal.length)
    (hnumber : (nthFrame header wal k).pageNumber ≠ 0)
    (hindex : indexFrame wal header.frameBytes (pages, limit) k = .ok t) :
    Indexed wal main header.pageSize mainPages slots t.1 t.2
      (replayFrame header.pageSize image (nthFrame header wal k)) := by
  rw [WalHeader.frameBytes, ← Nat.add_assoc] at hinside
  have hheader : frameOffset header k + walFrameHeaderBytes ≤ wal.length := by omega
  simp only [indexFrame, do_eq_ok, advanceOffset, okOr_eq_ok, checkedAdd_eq_some] at hindex
  obtain ⟨offset, ⟨-, rfl⟩, frameHeader, hread, hindex⟩ := hindex
  cases (readExact_of_le hheader).symm.trans hread
  have hwritten := h.write hpos hnumber (Nat.succ_ne_zero (frameOffset header k + 23)) hinside
  split at hindex
  · next hcommit =>
    have hpages : ¬ (nthFrame header wal k).committedPages = 0 := hcommit
    cases hindex
    rw [replayFrame, if_neg hpages]
    exact hwritten.commit hpos
  · next hopen =>
    have hpages : (nthFrame header wal k).committedPages = 0 := not_ne_iff.mp hopen
    cases hindex
    rw [replayFrame, if_pos hpages]
    exact hwritten

/-- All frames up to one. -/
theorem indexed_frames {n : Nat} (hpos : 0 < header.pageSize)
    (hmain : main.length = mainPages * header.pageSize)
    (hinside : frameOffset header n ≤ wal.length)
    (hnumber : ∀ k < n, (nthFrame header wal k).pageNumber ≠ 0)
    (h : (range n).foldlM (indexFrame wal header.frameBytes) (replicate slots 0, mainPages) =
    .ok t) :
    Indexed wal main header.pageSize mainPages slots t.1 t.2
      (((range n).map (nthFrame header wal)).foldl (replayFrame header.pageSize) main) := by
  induction n generalizing t with
  | zero =>
    cases h
    exact indexed_start hpos hmain
  | succ n ih =>
    have hsucc : frameOffset header (n + 1) = frameOffset header n + header.frameBytes := by
      rw [frameOffset, frameOffset, Nat.succ_mul, Nat.add_assoc]
    rw [hsucc] at hinside
    rw [range_succ, foldlM_append, do_eq_ok] at h
    obtain ⟨u, hprefix, hlast⟩ := h
    rw [foldlM_cons, do_eq_ok] at hlast
    obtain ⟨t', hlast, hend⟩ := hlast
    cases hend
    rw [range_succ, map_append, foldl_append]
    exact (ih (by omega) (fun k hk => hnumber k (by omega)) hprefix).frame hpos hinside
      (hnumber n (by omega)) hlast

end Index

/-! ## Reading -/

section Read

variable {wal main : Bytes} {pageSize mainPages : Nat} {pages : List Nat} {limit : Nat}
    {image : Bytes}

/-- The two bytes that are changed. -/
def patched (f : Nat → UInt8) (i : Nat) : UInt8 := if i = 18 ∨ i = 19 then 1 else f i

theorem patched_eq (f : Nat → UInt8) (i : Nat) :
    patched f i = if i = 19 then 1 else if i = 18 then 1 else f i := by
  by_cases h18 : i = 18
  · rw [patched, if_pos (.inl h18), if_pos h18, ite_self]
  · rw [patched, if_neg h18, if_congr (or_iff_right h18) rfl rfl]

/-- A byte that is set where the range has it. -/
theorem set_map_range {f : Nat → UInt8} {start n at_ : Nat} {b : UInt8} :
    (if start ≤ at_ ∧ at_ < start + ((range' start n).map f).length
      then ((range' start n).map f).set (at_ - start) b else (range' start n).map f) =
      (range' start n).map fun i => if i = at_ then b else f i := by
  rw [length_map, length_range']
  split
  · next hin =>
    refine ext_getElem (by simp) ?_
    intro i hi hmap
    rw [getElem_set, getElem_map, getElem_map, getElem_range', Nat.one_mul]
    exact if_congr (by omega) rfl rfl
  · next hout =>
    refine map_congr_left ?_
    intro i hi
    obtain ⟨k, hk, rfl⟩ := mem_range'.mp hi
    rw [if_neg (by omega)]

theorem patchHeader_map (f : Nat → UInt8) (start n : Nat) :
    patchHeader start ((range' start n).map f) = (range' start n).map (patched f) := by
  have hboth : (range' start n).map (patched f) = [18, 19].foldl (fun target headerOffset =>
      if start ≤ headerOffset ∧ headerOffset < start + target.length then target.set
        (headerOffset - start) 1
      else target) ((range' start n).map f) := by
    rw [foldl_cons, foldl_cons, foldl_nil, set_map_range, set_map_range]
    exact map_congr_left fun i _ => patched_eq f i
  rw [patchHeader]
  split
  · exact hboth.symm
  · next hout =>
    -- the range has neither of the two bytes
    rw [length_map, length_range'] at hout
    refine map_congr_left ?_
    intro i hi
    obtain ⟨k, hk, rfl⟩ := mem_range'.mp hi
    rw [patched, if_neg (by omega)]

theorem map_patched_eq_withoutLog {f : Nat → UInt8} (h : ∀ i, i < image.length →
    image.getD i 0 = f i) :
    (range' 0 image.length).map (patched f) = withoutLog image := by
  refine ext_getElem (by simp [withoutLog]) ?_
  intro i hmap hi
  have hlt : i < image.length := by simpa using hmap
  have hcell := h i hlt
  rw [getD_eq_getElem _ _ hlt] at hcell
  simp only [withoutLog, getElem_set, getElem_map, getElem_range', Nat.one_mul, Nat.zero_add,
    patched_eq, hcell]
  exact if_congr eq_comm rfl (if_congr eq_comm rfl rfl)

/-- A reader of a log and a main file. -/
def reader (wal main : Bytes) (pageSize : Nat) (pages : List Nat) (limit position : Nat) :
    ReplayedDatabase where
  database := main
  wal := wal
  walPages := pages
  mainPageLimit := limit
  mainLen := main.length
  pageSize := pageSize
  position := position

variable {position : Nat}

theorem source_within {k : Nat} (hpos : 0 < pageSize) (hk : k < pageSize - position % pageSize) :
    source wal main pageSize pages limit (position + k) =
      if pages.getD (position / pageSize + 1) 0 ≠ 0
      then wal.getD (pages.getD (position / pageSize + 1) 0 + position % pageSize + k) 0
      else if position / pageSize + 1 ≤ limit then main.getD (position + k) 0 else 0 := by
  have hsplit : position + k = pageSize * (position / pageSize) + (position % pageSize + k) := by
    rw [← Nat.add_assoc, Nat.div_add_mod]
  have hpage : (position + k) / pageSize = position / pageSize := by
    rw [hsplit, Nat.mul_add_div hpos, Nat.div_eq_of_lt
      (by omega : position % pageSize + k < pageSize), Nat.add_zero]
  have hwithin : (position + k) % pageSize = position % pageSize + k := by
    rw [hsplit, Nat.mul_add_mod, Nat.mod_eq_of_lt (by omega : position % pageSize + k < pageSize)]
  rw [source, hpage, hwithin, ← Nat.add_assoc]

variable {final : Nat} (h : Indexed wal main pageSize mainPages (final + 1) pages limit image)
  (hpos : 0 < pageSize) (hmain : main.length = mainPages * pageSize) (hfinal : final ≤ u32Max)
include h hpos hmain hfinal

/-- A read within one page. -/
theorem readPart_reader {length : Nat} (hpage : position / pageSize < final)
    (hlength : length ≤ pageSize - position % pageSize) :
    (reader wal main pageSize pages limit position).readPart length =
      .ok ((range' position length).map (source wal main pageSize pages limit)) := by
  have hmod : position % pageSize < pageSize := Nat.mod_lt _ hpos
  have hnumber : decide (position / pageSize + 1 > u32Max) = false := by
    rw [decide_eq_false_iff_not]
    omega
  -- a page that the main file still gives lies in the main file
  have hpageEnd : position / pageSize + 1 ≤ limit → position + length ≤ main.length ∧
      position < main.length := by
    intro hle
    have hmul : (position / pageSize + 1) * pageSize ≤ mainPages * pageSize :=
      Nat.mul_le_mul_right _ (Nat.le_trans hle h.limit_le)
    have hdiv := Nat.div_add_mod position pageSize
    rw [Nat.succ_mul, Nat.mul_comm] at hmul
    omega
  have hcells : ∀ k, k < length → source wal main pageSize pages limit (position + k) = _ :=
    fun k hk => source_within hpos (by omega)
  show (do
    rejectIf (decide (position / pageSize + 1 > u32Max)) WalError.io
    if pages.getD (position / pageSize + 1) 0 ≠ 0 then
      readExact wal (pages.getD (position / pageSize + 1) 0 + position % pageSize) length
    else if position / pageSize + 1 ≤ limit ∧ position < main.length
      then readExact main position length
    else return replicate length 0) = _
  rw [hnumber]
  split
  · next hframe =>
    have hinside := h.inside _ hframe
    rw [readExact_of_le (by omega)]
    refine congrArg Except.ok (slice_eq_map 0 position (by omega) ?_)
    intro k hk
    rw [hcells k hk, if_pos hframe]
  · next hframe =>
    split
    · next hmainpage =>
      have hend := (hpageEnd hmainpage.1).1
      rw [readExact_of_le hend]
      refine congrArg Except.ok (slice_eq_map 0 position hend ?_)
      intro k hk
      rw [hcells k hk, if_neg hframe, if_pos hmainpage.1]
    · next hzero =>
      have hbeyond : ¬ position / pageSize + 1 ≤ limit := fun hle => hzero ⟨hle, (hpageEnd hle).2⟩
      refine congrArg Except.ok (ext_getElem (by simp) ?_)
      intro k hk hmap
      have hlt : k < length := by simpa using hk
      rw [getElem_replicate, getElem_map, getElem_range', Nat.one_mul, hcells k hlt, if_neg hframe,
        if_neg hbeyond]

/-- **One read** returns the bytes from the position on. -/
theorem readLoop_reader {fuel room : Nat} (hfuel : room ≤ fuel)
    (hend : position + room ≤ final * pageSize) :
    readLoop fuel room (reader wal main pageSize pages limit position) =
      .ok ((range' position room).map (patched (source wal main pageSize pages limit)))
        (reader wal main pageSize pages limit (position + room)) := by
  induction fuel generalizing room position with
  | zero =>
    obtain rfl : room = 0 := by omega
    rfl
  | succ fuel ih =>
    rw [readLoop]
    rcases Nat.eq_zero_or_pos room with rfl | hroom
    · rfl
    rw [if_pos hroom]
    have hmod : position % pageSize < pageSize := Nat.mod_lt _ hpos
    have hpage : position / pageSize < final := (Nat.div_lt_iff_lt_mul hpos).mpr (by omega)
    let part := min (pageSize - position % pageSize) room
    have hsmall : part ≤ room := Nat.min_le_right _ _
    have hsome : 0 < part := Nat.lt_min.mpr ⟨by omega, hroom⟩
    have hpart := readPart_reader h hpos hmain hfinal hpage
      (Nat.min_le_left (pageSize - position % pageSize) room)
    have hrest := @ih (position + part) (room - part) (by omega) (by omega)
    have hbytes : patchHeader position
        ((range' position part).map (source wal main pageSize pages limit)) ++
        (range' (position + part) (room - part)).map
        (patched (source wal main pageSize pages limit)) = (range' position room).map
        (patched (source wal main pageSize pages limit)) := by
      rw [patchHeader_map, ← map_append, range'_append_1, Nat.add_sub_of_le hsmall]
    rw [Nat.add_assoc, Nat.add_sub_of_le hsmall] at hrest
    refine Call.bind_eq_ok.mpr ⟨_, _, Call.get_eq_ok.mpr ⟨rfl, rfl⟩, ?_⟩
    refine Call.bind_eq_ok.mpr ⟨_, _, Call.lift_eq_ok.mpr ⟨hpart, rfl⟩, ?_⟩
    refine Call.bind_eq_ok.mpr ⟨⟨⟩, reader wal main pageSize pages limit (position + part),
      Call.set_eq_ok.mpr rfl, ?_⟩
    exact Call.bind_eq_ok.mpr ⟨_, _, hrest, Call.pure_eq_ok.mpr ⟨hbytes, rfl⟩⟩

/-- **Reads of any sizes** return the bytes from the position on. -/
theorem runAll_reader {sizes : List Nat} (hend : position + sizes.sum ≤ final * pageSize) :
    Call.runAll read (reader wal main pageSize pages limit position) sizes =
      .ok (reader wal main pageSize pages limit (position + sizes.sum),
        (range' position sizes.sum).map (patched (source wal main pageSize pages limit))) := by
  induction sizes generalizing position with
  | nil => rfl
  | cons size sizes ih =>
    rw [sum_cons, ← Nat.add_assoc] at hend ⊢
    have hread := readLoop_reader h hpos hmain hfinal (Nat.le_refl size)
      (show position + size ≤ final * pageSize by omega)
    refine feed_cons_eq_ok.mpr ⟨_, _, _, Call.outcome_eq_ok.mpr hread, ih hend, ?_⟩
    rw [← map_append, range'_append_1]

end Read

/-! ## The replayed database -/

section Replayed

variable {wal main image : Bytes} {pageSize mainPages : Nat} {plan : WalPlan} {pages : List Nat}
    {limit : Nat}

theorem prefix_validFrames {order : ChecksumOrder} {salt : Bytes} (sum : Checksum)
    (fs : List Frame) :
    validFrames order salt sum fs <+: fs := by
  induction fs generalizing sum with
  | nil => exact prefix_rfl
  | cons f fs ih =>
    rw [validFrames]
    split
    · exact (prefix_cons_inj f).mpr (ih _)
    · exact nil_prefix

/-- The committed frames, by their offsets. -/
theorem committedFrames_eq_map {header : WalHeader} (hsized : Sized wal) :
    frameOffset header (committedFrames header wal).length ≤ wal.length ∧
      committedFrames header wal = (range (committedFrames header wal).length).map
      (nthFrame header wal) := by
  have hprefix : committedFrames header wal <+: frames wal header.pageSize :=
    (List.rdropWhile_prefix _ _).trans (prefix_validFrames _ _)
  have hframes : frames wal header.pageSize =
      (range ((wal.length - walHeaderBytes) / header.frameBytes)).map (nthFrame header wal) :=
      framesFrom_eq_map wal header _ _
  have hcount : (committedFrames header wal).length ≤ (wal.length - walHeaderBytes) /
      header.frameBytes := by
    have hle := hprefix.length_le
    rwa [hframes, length_map, length_range] at hle
  constructor
  · have hmul := Nat.mul_le_mul_right header.frameBytes hcount
    have hspans := (@spans_frames wal header hsized).inside
    rw [frameOffset]
    omega
  · have htake := prefix_iff_eq_take.mp hprefix
    rwa [hframes, ← map_take, take_range, Nat.min_eq_left hcount] at htake

theorem finalPages_le (hpages : mainPages ≤ u32Max) (fs : List Frame) :
    finalPages mainPages fs ≤ u32Max := by
  rw [finalPages]
  cases (committed fs).getLast? with
  | none => exact hpages
  | some f => exact Nat.le_of_lt_succ (UInt32.toNat_lt _)

/-- What the analysis and the index of a log are: the header, the size after the replay, and the
    table of it. -/
theorem indexed_of_indexWal (hmain : main.length = mainPages * pageSize)
    (hplan : analyzeWal wal wal.length pageSize mainPages = .ok plan)
    (hindex : indexWal wal wal.length plan mainPages = .ok (pages, limit)) :
    readWalHeader wal = .ok plan.header ∧ 0 < pageSize ∧
      (mainPages ≤ u32Max → plan.finalPages ≤ u32Max) ∧
      (replay plan.header main wal).length = plan.finalPages * pageSize ∧
      Indexed wal main pageSize mainPages (plan.finalPages + 1) pages limit
      (replay plan.header main wal) := by
  obtain ⟨hsized, header, s, hread, rfl, hcheck, rfl⟩ := analyzeWal_eq_ok.mp hplan
  have hpos := (eight_dvd_of_pageSizeValid (pageSizeValid_of_readWalHeader hread)).2
  obtain ⟨rfl, hrange⟩ := checkFrames_eq_ok hcheck
  obtain ⟨-, hlast, hfinal⟩ := @foldl_advance header mainPages
    (validFrames header.checksumOrder header.salt header.checksum (frames wal header.pageSize))
  obtain ⟨hinside, hframes⟩ := @committedFrames_eq_map wal header hsized
  simp only [indexWal, do_ok, rejectIf_eq_ok] at hindex
  obtain ⟨-, -, -, hindex⟩ := hindex
  refine ⟨hread, hpos, ?_, ?_, ?_⟩
  · intro hpages
    exact Nat.le_trans (Nat.le_of_eq hfinal) (finalPages_le hpages _)
  · exact (length_foldl_committed hmain _).trans (congrArg (· * header.pageSize) hfinal.symm)
  · have hnumber : ∀ k < (committedFrames header wal).length,
        (nthFrame header wal k).pageNumber ≠ 0 := by
      intro k hk
      have hmem : nthFrame header wal k ∈ committedFrames header wal := by
        rw [hframes]
        exact mem_map_of_mem (mem_range.mpr hk)
      exact (hrange _ ((List.rdropWhile_prefix _ _).subset hmem)).nonzero
    have hindexed := indexed_frames hpos hmain hinside hnumber (hlast ▸ hindex)
    rwa [← hframes] at hindexed

/-- The bytes that the table gives are those of the replayed database. -/
theorem map_patched_source (hpos : 0 < pageSize) {header : WalHeader}
    (hlength : (replay header main wal).length = plan.finalPages * pageSize)
    (hindexed : Indexed wal main pageSize mainPages (plan.finalPages + 1) pages limit
    (replay header main wal)) :
    (range' 0 (plan.finalPages * pageSize)).map (patched (source wal main pageSize pages limit)) =
      withoutLog (replay header main wal) := by
  rw [← hlength]
  refine map_patched_eq_withoutLog ?_
  intro i hi
  rw [hlength] at hi
  exact hindexed.reads i (Nat.succ_lt_succ ((Nat.div_lt_iff_lt_mul hpos).mpr hi))

/-- **The replayed database.** Read to its end, in pieces of any sizes, the reader gives the
    database that the main file and the log stand for, but for the two bytes that would ask for the
    log. -/
theorem runAll_read_eq_replay (hmain : main.length = mainPages * pageSize)
    (hpages : mainPages ≤ u32Max) (hplan : analyzeWal wal wal.length pageSize mainPages = .ok plan)
    (hindex : indexWal wal wal.length plan mainPages = .ok (pages, limit)) (sizes : List Nat)
    (hsizes : sizes.sum = plan.finalPages * pageSize) :
    ∃ header r, readWalHeader wal = .ok header ∧
      Call.runAll ReplayedDatabase.read (reader wal main pageSize pages limit 0) sizes =
        .ok (r, withoutLog (replay header main wal)) := by
  obtain ⟨hread, hpos, hfinal, hlength, hindexed⟩ := indexed_of_indexWal hmain hplan hindex
  have hend : 0 + sizes.sum ≤ plan.finalPages * pageSize :=
    Nat.le_of_eq ((Nat.zero_add _).trans hsizes)
  have hrun := runAll_reader hindexed hpos hmain (hfinal hpages) hend
  rw [hsizes, map_patched_source hpos hlength hindexed] at hrun
  exact ⟨plan.header, _, hread, hrun⟩

/-- A main file of two pages, and a log that cuts it to one page of zeros, read in two pieces that
    meet between the two bytes that are changed. -/
theorem runAll_read_eq_replay_small :
    ∃ header r, readWalHeader smallWal.bytes = .ok header ∧
      Call.runAll ReplayedDatabase.read (reader smallWal.bytes (replicate 1024 5) 512 [0, 56] 1 0)
        [19, 493] = .ok (r, withoutLog (replay header (replicate 1024 5) smallWal.bytes)) := by
  have hplan : analyzeWal smallWal.bytes smallWal.bytes.length 512 2 = .ok ⟨smallHeader, 1, 1⟩ := by
    decide +kernel
  have hindex : indexWal smallWal.bytes smallWal.bytes.length ⟨smallHeader, 1, 1⟩ 2 =
      .ok ([0, 56], 1) := by
    decide +kernel
  exact runAll_read_eq_replay length_replicate (by decide) hplan hindex [19, 493] rfl

/-- **Opening past a log.** The database that is put into memory is the one that the main file and
    the log stand for. -/
theorem openReplayed_eq_ok {database : Bytes} (h : openReplayed database wal = .ok image) :
    ∃ header, readWalHeader wal = .ok header ∧ image = withoutLog (replay header database wal) := by
  simp only [openReplayed, do_ok, rejectIf_eq_ok, decide_eq_false_iff_not, Nat.not_lt,
    Prod.exists] at h
  obtain ⟨pageSize, hinspect, hpages, plan, hplan, pages, limit, hindex, -, -, r, bytes, hread,
    rfl⟩ := h
  have hmain : database.length = database.length / pageSize * pageSize := by
    simp only [inspectMainDatabase, do_ok, rejectIf_eq_ok, bne_eq_false_iff_eq] at hinspect
    obtain ⟨-, -, header, -, -, -, haligned, rfl⟩ := hinspect
    exact (Nat.div_mul_cancel (Nat.dvd_of_mod_eq_zero haligned)).symm
  obtain ⟨hheader, hpos, hfinal, hlength, hindexed⟩ := indexed_of_indexWal hmain hplan hindex
  have hloop := readLoop_reader hindexed hpos hmain (hfinal hpages)
    (Nat.le_refl (plan.finalPages * pageSize)) (Nat.le_of_eq (Nat.zero_add _))
  rw [map_patched_source hpos hlength hindexed] at hloop
  cases (Call.outcome_eq_ok.mpr hloop).symm.trans hread
  exact ⟨plan.header, hheader, rfl⟩

/-- The one page of the main file is replaced. -/
theorem openReplayed_eq_ok_small : ∃ header, readWalHeader smallWal.bytes = .ok header ∧
    withoutLog (replicate 512 0) = withoutLog (replay header
      ("SQLite format 3\x00\x02".toList.map (·.toNat.toUInt8) ++ replicate 495 0) smallWal.bytes) :=
  openReplayed_eq_ok (by decide +kernel)

end Replayed

end Wokcore.Storage.Wal
