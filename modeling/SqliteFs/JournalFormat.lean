import SqliteFs.Pager

/-!
What a rollback journal looks like on the device. `Segments` lays headers and
page records out the way `writeJournalHdr` and `pagerAddPageToRollbackJournal`
write them, each record with the page as it is in the image the transaction
started from. The lemmas read headers and records back, and carry a layout
over to any file with the same bytes.
-/

namespace SqliteFs

open Lib Prog

variable (G : Geometry)

/-! ## Files with the same bytes in a range -/

/-- `len` bytes of `src` are in the file at `off`. -/
def Stores (f : ParentFile) (off len : Int) (src : Bytes) : Prop :=
  ∀ k, 0 ≤ k → k < len → f.byte (off + k) = src k

/-- The files have the same bytes from `lo` up to `hi`. -/
def SameOn (f g : ParentFile) (lo hi : Int) : Prop := ∀ i, lo ≤ i → i < hi → f.byte i = g.byte i

section Stores

variable {f g h : ParentFile} {off len len' lo hi lo' hi' : Int} {src : Bytes}

theorem SameOn.refl : SameOn f f lo hi := fun _ _ _ => rfl

theorem SameOn.symm (hs : SameOn f g lo hi) : SameOn g f lo hi :=
  fun i hlo hhi => (hs i hlo hhi).symm

theorem SameOn.trans (hs : SameOn f g lo hi) (hs' : SameOn g h lo hi) : SameOn f h lo hi :=
  fun i hlo hhi => (hs i hlo hhi).trans (hs' i hlo hhi)

theorem SameOn.mono (hs : SameOn f g lo hi) (hlo : lo ≤ lo') (hhi : hi' ≤ hi) :
    SameOn f g lo' hi' :=
  fun i h1 h2 => hs i (hlo.trans h1) (h2.trans_le hhi)

theorem Stores.same (hst : Stores f off len src) (hs : SameOn f g off (off + len)) :
    Stores g off len src := by
  intro k hlo hhi
  rw [← hs (off + k) (by omega) (by omega)]
  exact hst k hlo hhi

theorem stores_put : Stores (f.put src off len) off len src := by
  intro k hlo hhi
  rw [ParentFile.put_inside (by omega) (by omega)]
  congr 1
  omega

/-- Part of what a write puts down. -/
theorem Stores.part {src' : Bytes} (hst : Stores f off len src) (hlo : 0 ≤ lo)
    (hlen : lo + len' ≤ len) (hsrc : ∀ k, 0 ≤ k → k < len' → src (lo + k) = src' k) :
    Stores f (off + lo) len' src' := by
  intro k h1 h2
  rw [← hsrc k h1 h2, ← hst (lo + k) (by omega) (by omega)]
  congr 1
  omega

theorem sameOn_put (hout : hi ≤ off ∨ off + len ≤ lo) : SameOn f (f.put src off len) lo hi := by
  intro i hlo hhi
  exact (ParentFile.put_outside (by omega)).symm

theorem sameOn_write {sector : Int} {s : Store} {o : IoOutcome}
    (hout : hi ≤ off ∨ off + len ≤ lo) :
    SameOn s.now (Store.write sector s o src off len).now lo hi := by
  intro i hlo hhi
  exact (Store.write_outside (by omega)).symm

theorem Stores.get4 {v : Int} (hst : Stores f off 4 (sqlite3Put4byte v)) (hlo : 0 ≤ v)
    (hhi : v < 4294967296) : sqlite3Get4byte (fun k => f.byte (off + k)) = v := by
  rw [sqlite3Get4byte_congr hst]
  exact sqlite3Get4byte_put4byte hlo hhi

end Stores

/-! ## Offsets in a journal -/

section Offsets

variable {G} {c k : Int}

@[simp] theorem journalHdrOffset_zero : journalHdrOffset G 0 = 0 := rfl

theorem journalHdrOffset_dvd (G : Geometry) (c : Int) : G.sectorSize ∣ journalHdrOffset G c := by
  unfold journalHdrOffset
  split_ifs
  · exact Dvd.intro_left _ rfl
  · exact dvd_zero _

theorem le_journalHdrOffset (G : Geometry) (c : Int) : c ≤ journalHdrOffset G c := by
  have hS := G.sectorSize_bounds
  unfold journalHdrOffset
  split_ifs with hc
  · have hdiv := Int.emod_add_mul_ediv (c - 1) G.sectorSize
    have hpos : 0 < G.sectorSize := by omega
    have hmod := Int.emod_lt_of_pos (c - 1) hpos
    rw [add_mul, one_mul, mul_comm]
    omega
  · omega

/-- A header is in one sector. -/
theorem journalHdrOffset_sector (G : Geometry) (c : Int) (hlo : 0 ≤ k) (hhi : k < G.sectorSize) :
    (journalHdrOffset G c + k) / G.sectorSize = journalHdrOffset G c / G.sectorSize := by
  have hS := G.sectorSize_bounds
  obtain ⟨n, hn⟩ := journalHdrOffset_dvd G c
  rw [hn, Int.mul_ediv_cancel_left _ (by omega), add_comm,
    Int.add_mul_ediv_left _ _ (by omega), Int.ediv_eq_zero_of_lt hlo hhi, zero_add]

end Offsets

/-! ## Images, records, headers -/

/-- The content of a database of whole pages. The bounds are those that the
page numbers of the pager have; the last page is not the locking page. -/
structure DbImage where
  pages : Int
  byte : Bytes
  pages_pos : 1 ≤ pages
  pages_le : pages ≤ PAGER_MAX_PGNO
  pages_ne : pages ≠ G.pagerMjPgno

namespace DbImage

variable {G} (base : DbImage G)

def page (pgno : Int) : Bytes := fun k => base.byte (pageOfst G pgno + k)

/-- A page of the image that can be fetched. -/
def Has (pgno : Int) : Prop := 1 ≤ pgno ∧ pgno ≤ base.pages ∧ pgno ≠ G.pagerMjPgno

end DbImage

variable {G} (base : DbImage G)

/-- The record of page `pgno` at `off`. -/
structure RecordAt (f : ParentFile) (off : Int) (cksumInit : UInt32) (pgno : Int) : Prop where
  number : Stores f off 4 (sqlite3Put4byte pgno)
  data : Stores f (off + 4) G.pageSize (base.page pgno)
  cksum : Stores f (off + G.pageSize + 4) 4
    (sqlite3Put4byte (pagerCksum G cksumInit (base.page pgno)).toNat)

/-- The records of `pages`, one after the other from `off` on. -/
def RecordsAt (f : ParentFile) : Int → UInt32 → List Int → Prop
  | _, _, [] => True
  | off, cksumInit, pgno :: pages =>
    RecordAt base f off cksumInit pgno ∧ RecordsAt f (off + G.journalPgSz) cksumInit pages

/-- The fields of a header that are written once and for all. -/
structure HeaderBody (f : ParentFile) (hdr : Int) (cksumInit : UInt32) : Prop where
  cksumInit : Stores f (hdr + 12) 4 (sqlite3Put4byte cksumInit.toNat)
  dbOrigSize : Stores f (hdr + 16) 4 (sqlite3Put4byte base.pages)
  sectorSize : Stores f (hdr + 20) 4 (sqlite3Put4byte G.sectorSize)
  pageSize : Stores f (hdr + 24) 4 (sqlite3Put4byte G.pageSize)

/-- The magic is at `hdr`. -/
def MagicAt (f : ParentFile) (hdr : Int) : Prop := Stores f hdr 8 aJournalMagic

/-- A header and the page records behind it. -/
structure Segment where
  cksumInit : UInt32
  pages : List Int

/-- A header that was synced with its records. -/
structure HeaderAt (f : ParentFile) (hdr : Int) (seg : Segment) : Prop where
  magic : MagicAt f hdr
  nRec : Stores f (hdr + 8) 4 (sqlite3Put4byte seg.pages.length)
  body : HeaderBody base f hdr seg.cksumInit

variable (G) in
/-- Where the records behind the header at `hdr` end. -/
def recordsEnd (hdr : Int) (pages : List Int) : Int :=
  hdr + G.sectorSize + G.journalPgSz * pages.length

variable (G) in
/-- Where a journal of these segments ends, if it starts at `off`. -/
def journalEnd : Int → List Segment → Int
  | off, [] => off
  | off, seg :: segs => journalEnd (recordsEnd G (journalHdrOffset G off) seg.pages) segs

/-- Synced segments from `off` on, every header at a sector boundary. -/
def Segments (f : ParentFile) : Int → List Segment → Prop
  | _, [] => True
  | off, seg :: segs =>
    HeaderAt base f (journalHdrOffset G off) seg ∧
      RecordsAt base f (journalHdrOffset G off + G.sectorSize) seg.cksumInit seg.pages ∧
      Segments f (recordsEnd G (journalHdrOffset G off) seg.pages) segs

/-- The pages that the segments have the old content of. -/
def pagesOf (segs : List Segment) : List Int := segs.flatMap Segment.pages

section Layout

variable {base} {f g : ParentFile} {off hdr pgno : Int} {cksumInit : UInt32}
  {pages pages' : List Int}
  {seg : Segment} {segs : List Segment}

theorem RecordAt.same (h : RecordAt base f off cksumInit pgno)
    (hs : SameOn f g off (off + G.journalPgSz)) : RecordAt base g off cksumInit pgno := by
  have hP := G.pageSize_bounds
  simp only [Geometry.journalPgSz] at hs
  constructor
  · exact h.number.same (hs.mono (by omega) (by omega))
  · exact h.data.same (hs.mono (by omega) (by omega))
  · exact h.cksum.same (hs.mono (by omega) (by omega))

theorem RecordsAt.same (h : RecordsAt base f off cksumInit pages)
    (hs : SameOn f g off (off + G.journalPgSz * pages.length)) :
    RecordsAt base g off cksumInit pages := by
  have hP := G.pageSize_bounds
  induction pages generalizing off with
  | nil => trivial
  | cons pgno pages ih =>
      have hlen : G.journalPgSz * ((pgno :: pages).length : Int) =
          G.journalPgSz + G.journalPgSz * pages.length := by
        push_cast [List.length_cons]
        ring
      rw [hlen] at hs
      have hnonneg : 0 ≤ G.journalPgSz * (pages.length : Int) :=
        mul_nonneg (by simp only [Geometry.journalPgSz]; omega) (by omega)
      have hpos : 0 ≤ G.journalPgSz := by simp only [Geometry.journalPgSz]; omega
      constructor
      · exact h.1.same (hs.mono le_rfl (by omega))
      · exact ih h.2 (hs.mono (by omega) (by omega))

/-- Records are written one behind the other. -/
theorem RecordsAt.snoc (h : RecordsAt base f off cksumInit pages)
    (hrec : RecordAt base f (off + G.journalPgSz * pages.length) cksumInit pgno) :
    RecordsAt base f off cksumInit (pages ++ [pgno]) := by
  induction pages generalizing off with
  | nil =>
      rw [List.length_nil, Nat.cast_zero, mul_zero, add_zero] at hrec
      exact ⟨hrec, trivial⟩
  | cons pgno' pages ih =>
      refine ⟨h.1, ih h.2 ?_⟩
      rw [List.length_cons, Nat.cast_succ] at hrec
      have hlength : off + G.journalPgSz + G.journalPgSz * (pages.length : Int) =
          off + G.journalPgSz * ((pages.length : Int) + 1) := by ring
      rwa [hlength]

theorem HeaderBody.same (h : HeaderBody base f hdr cksumInit)
    (hs : SameOn f g (hdr + 12) (hdr + 28)) : HeaderBody base g hdr cksumInit := by
  constructor
  · exact h.cksumInit.same (hs.mono (by omega) (by omega))
  · exact h.dbOrigSize.same (hs.mono (by omega) (by omega))
  · exact h.sectorSize.same (hs.mono (by omega) (by omega))
  · exact h.pageSize.same (hs.mono (by omega) (by omega))

theorem HeaderAt.same (h : HeaderAt base f hdr seg) (hs : SameOn f g hdr (hdr + 28)) :
    HeaderAt base g hdr seg := by
  constructor
  · exact Stores.same h.magic (hs.mono (by omega) (by omega))
  · exact h.nRec.same (hs.mono (by omega) (by omega))
  · exact h.body.same (hs.mono (by omega) (by omega))

theorem recordsEnd_ge (hdr : Int) (pages : List Int) :
    hdr + G.sectorSize ≤ recordsEnd G hdr pages := by
  have hP := G.pageSize_bounds
  have hnonneg : 0 ≤ G.journalPgSz * (pages.length : Int) :=
    mul_nonneg (by simp only [Geometry.journalPgSz]; omega) (by omega)
  simp only [recordsEnd]
  omega

theorem le_journalEnd (hoff : 0 ≤ off) (segs : List Segment) : off ≤ journalEnd G off segs := by
  have hS := G.sectorSize_bounds
  induction segs generalizing off with
  | nil => exact le_rfl
  | cons seg segs ih =>
      have hhdr := le_journalHdrOffset G off
      have hge := recordsEnd_ge (G := G) (journalHdrOffset G off) seg.pages
      have hnonneg : 0 ≤ recordsEnd G (journalHdrOffset G off) seg.pages := by omega
      have hnext := ih hnonneg
      simp only [journalEnd]
      omega

theorem Segments.same (h : Segments base f off segs) (hoff : 0 ≤ off)
    (hs : SameOn f g off (journalEnd G off segs)) : Segments base g off segs := by
  have hS := G.sectorSize_bounds
  induction segs generalizing off with
  | nil => trivial
  | cons seg segs ih =>
      obtain ⟨hheader, hrecords, hrest⟩ := h
      have hhdr := le_journalHdrOffset G off
      have hge := recordsEnd_ge (G := G) (journalHdrOffset G off) seg.pages
      have hnonneg : 0 ≤ recordsEnd G (journalHdrOffset G off) seg.pages := by omega
      have hend := le_journalEnd (G := G) hnonneg segs
      simp only [journalEnd] at hs
      refine ⟨?_, ?_, ?_⟩
      · exact hheader.same (hs.mono hhdr (by omega))
      · exact hrecords.same (hs.mono (by omega) (by simp only [recordsEnd] at hend ⊢; omega))
      · exact ih hrest (by omega) (hs.mono (by omega) le_rfl)

theorem journalEnd_append (segs segs' : List Segment) :
    journalEnd G off (segs ++ segs') = journalEnd G (journalEnd G off segs) segs' := by
  induction segs generalizing off with
  | nil => rfl
  | cons seg segs ih => exact ih

theorem segments_append {segs' : List Segment} :
    Segments base f off (segs ++ segs') ↔
      Segments base f off segs ∧ Segments base f (journalEnd G off segs) segs' := by
  induction segs generalizing off with
  | nil => simp only [List.nil_append, Segments, journalEnd, true_and]
  | cons seg segs ih => simp only [List.cons_append, Segments, journalEnd, ih, and_assoc]

theorem pagesOf_append (segs segs' : List Segment) :
    pagesOf (segs ++ segs') = pagesOf segs ++ pagesOf segs' :=
  List.flatMap_append

end Layout

end SqliteFs
