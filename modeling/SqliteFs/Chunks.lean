import SqliteFs.RealFile

/-!
The two chunk loops over a journal range. Under the size conditions that
`fsOpen` establishes both compute the block-reversed address of every offset,
so one statement says where the writer puts a byte and one where the reader
finds it, however the range is cut into calls.
-/

namespace SqliteFs

open Lib

/-- A blob that is a whole number of blocks and whose size fits an `int`. -/
structure WholeBlob (nBlob : Int) : Prop where
  dvd : BLOCKSIZE ∣ nBlob
  nonneg : 0 ≤ nBlob
  lt : nBlob < 2147483648

theorem wholeBlob_BLOBSIZE : WholeBlob BLOBSIZE :=
  ⟨by decide, by decide, by decide⟩

/-- Where journal offset `j` is on the medium. -/
abbrev journalAddr (nBlob j : Int) : Int := reversed BLOCKSIZE nBlob j

/-- Where database offset `x` is on the medium. -/
abbrev databaseAddr (x : Int) : Int := x + BLOCKSIZE

/-- Where offset `x` of a file of this type is on the medium. -/
def EType.addr (nBlob : Int) : EType → Int → Int
  | .database, x => databaseAddr x
  | .journal, x => journalAddr nBlob x

/-- A range of the journal that the loops count through without overflow. -/
structure JournalRange (ii iRem : Int) : Prop where
  first : 0 ≤ ii
  length : 0 ≤ iRem
  last : ii + iRem < 2147483648

theorem JournalRange.advance {ii iRem amt : Int} (h : JournalRange ii iRem)
    (hpos : 0 < amt) (hle : amt ≤ iRem) : JournalRange (ii + amt) (iRem - amt) :=
  ⟨by linarith [h.first], by linarith, by linarith [h.last]⟩

/-- The loops start where they are told to. -/
theorem JournalRange.start {ii iRem : Int} (h : JournalRange ii iRem) : int32 ii = ii := by
  have hfirst := h.first
  have hlength := h.length
  have hlast := h.last
  exact int32_of_bounds (by omega) (by omega)

/-- The loops count on without overflow. -/
theorem JournalRange.next {ii iRem amt : Int} (h : JournalRange ii iRem)
    (hpos : 0 < amt) (hle : amt ≤ iRem) : int32 (ii + amt) = ii + amt := by
  have hfirst := h.first
  have hlast := h.last
  exact int32_of_bounds (by omega) (by omega)

/-- The length of the first chunk of a range, up to the end of its block. -/
def chunkLength (ii iRem : Int) : Int := min iRem (BLOCKSIZE - ii % BLOCKSIZE)

theorem chunkLength_pos (ii : Int) {iRem : Int} (h : 0 < iRem) : 0 < chunkLength ii iRem := by
  simp only [chunkLength, BLOCKSIZE]
  omega

theorem chunkLength_le (ii iRem : Int) : chunkLength ii iRem ≤ iRem := min_le_left _ _

theorem realAmt_eq_of_nonneg {iRem iRealOff : Int} (h : 0 ≤ iRealOff) :
    realAmt iRem iRealOff = min iRem (BLOCKSIZE - iRealOff % BLOCKSIZE) := by
  unfold realAmt
  rw [Int.tmod_eq_emod_of_nonneg h]

/-- The address is computed without overflow, whatever the size of the blob. -/
theorem realOff_eq_of_int {nBlob ii : Int} (hnonneg : 0 ≤ nBlob) (hlt : nBlob < 2147483648)
    (hfirst : 0 ≤ ii) (hlast : ii < 2147483648) : realOff nBlob ii = journalAddr nBlob ii := by
  unfold realOff
  rw [Int.tdiv_eq_ediv_of_nonneg hfirst, Int.tmod_eq_emod_of_nonneg hfirst]
  exact int32_of_bounds (by simp only [BLOCKSIZE]; omega) (by simp only [BLOCKSIZE]; omega)

section

variable {nBlob : Int} (hblob : WholeBlob nBlob)
include hblob

theorem journalAddr_journalAddr (j : Int) : journalAddr nBlob (journalAddr nBlob j) = j :=
  reversed_reversed hblob.dvd j

theorem journalAddr_emod (j : Int) : journalAddr nBlob j % 512 = j % 512 :=
  reversed_emod hblob.dvd j

theorem realOff_eq {ii iRem : Int} (hrange : JournalRange ii iRem) :
    realOff nBlob ii = journalAddr nBlob ii := by
  have hlength := hrange.length
  have hlast := hrange.last
  exact realOff_eq_of_int hblob.nonneg hblob.lt hrange.first (by omega)

theorem realAmt_eq {ii iRem : Int} (hoff : 0 ≤ journalAddr nBlob ii) :
    realAmt iRem (journalAddr nBlob ii) = chunkLength ii iRem := by
  rw [realAmt_eq_of_nonneg hoff, journalAddr_emod hblob, chunkLength]

omit hblob in
/-- A chunk is contiguous on the medium. -/
theorem journalAddr_chunk {ii iRem j : Int} (hlo : ii ≤ j) (hhi : j < ii + chunkLength ii iRem) :
    journalAddr nBlob j = journalAddr nBlob ii + (j - ii) := by
  have hfit : ii % BLOCKSIZE + (j - ii) < BLOCKSIZE := by
    simp only [chunkLength] at hhi
    omega
  have hadd := reversed_add (N := nBlob) (by decide) (sub_nonneg.mpr hlo) hfit
  rwa [add_sub_cancel] at hadd

/-- The addresses of a chunk are exactly those of its offsets. -/
theorem mem_chunk_iff (ii iRem x : Int) :
    (journalAddr nBlob ii ≤ x ∧ x < journalAddr nBlob ii + chunkLength ii iRem) ↔
      (ii ≤ journalAddr nBlob x ∧ journalAddr nBlob x < ii + chunkLength ii iRem) := by
  have hdvd := hblob.dvd
  simp only [journalAddr, reversed, chunkLength, BLOCKSIZE] at *
  omega

/-- Every chunk of a range starts at or above `floor`. A chunk starts where
the range does and at every block boundary inside it. -/
def StartsAbove (nBlob floor ii iRem : Int) : Prop :=
  ∀ j, ii ≤ j → j < ii + iRem → (j = ii ∨ BLOCKSIZE ∣ j) → floor ≤ journalAddr nBlob j

omit hblob in
theorem StartsAbove.step_iff {floor ii iRem : Int} (hpos : 0 < iRem) :
    StartsAbove nBlob floor ii iRem ↔
      floor ≤ journalAddr nBlob ii ∧
        StartsAbove nBlob floor (ii + chunkLength ii iRem) (iRem - chunkLength ii iRem) := by
  have hlen := chunkLength_pos ii hpos
  have hle := chunkLength_le ii iRem
  constructor
  · intro h
    refine ⟨h ii (le_refl ii) (by omega) (Or.inl rfl), ?_⟩
    intro j hlo hhi hstart
    refine h j (by omega) (by omega) (Or.inr ?_)
    rcases hstart with rfl | hdvd
    · simp only [chunkLength, BLOCKSIZE] at *
      omega
    · exact hdvd
  · rintro ⟨hfirst, hrest⟩ j hlo hhi hstart
    by_cases hin : j < ii + chunkLength ii iRem
    · have hj : j = ii := by
        simp only [chunkLength, BLOCKSIZE] at *
        omega
      rw [hj]
      exact hfirst
    · refine hrest j (by omega) (by omega) ?_
      rcases hstart with rfl | hdvd
      · omega
      · exact Or.inr hdvd

end

/-- What the write loop has done when it returns `out`. -/
structure ChunksWritten (pReal : Sizes) (pF : ParentFile) (zBuf : Bytes)
    (iRem iBuf ii : Int) (out : Rc × ParentFile) : Prop where
  size : pReal.nBlob ≤ pF.size → out.2.size = pF.size
  frame : ∀ x, (x < pReal.nDatabase + BLOCKSIZE ∨ journalAddr pReal.nBlob x < ii ∨
    ii + iRem ≤ journalAddr pReal.nBlob x) → out.2.byte x = pF.byte x
  stored : out.1 = .ok → ∀ j, ii ≤ j → j < ii + iRem →
    out.2.byte (journalAddr pReal.nBlob j) = zBuf (iBuf + (j - ii))
  starts : out.1 = .ok → StartsAbove pReal.nBlob (pReal.nDatabase + BLOCKSIZE) ii iRem

section

variable {pReal : Sizes} (hblob : WholeBlob pReal.nBlob) (hdb : 0 ≤ pReal.nDatabase)
  (hdbLt : pReal.nDatabase < 2147483648 - 512)
include hblob hdb hdbLt

/-- One turn of the write loop, in terms of the reversed addresses. -/
theorem writeChunks_step {pF : ParentFile} {io : Outcomes} {zBuf : Bytes}
    {iRem iBuf ii : Int} (hrange : JournalRange ii iRem) (hpos : 0 < iRem) :
    writeChunks pReal pF io zBuf iRem iBuf ii =
      if journalAddr pReal.nBlob ii < pReal.nDatabase + BLOCKSIZE then (.full, pF)
      else
        let amt := chunkLength ii iRem
        let put := pF.xWrite (io 0) (fun k => zBuf (iBuf + k)) amt (journalAddr pReal.nBlob ii)
        if put.1 = .ok then
          writeChunks pReal put.2 (fun n => io (n + 1)) zBuf (iRem - amt) (iBuf + amt) (ii + amt)
        else put := by
  have hfloor : int32 (pReal.nDatabase + BLOCKSIZE) = pReal.nDatabase + BLOCKSIZE :=
    int32_of_bounds (by simp only [BLOCKSIZE]; omega) (by simp only [BLOCKSIZE]; omega)
  have hnext := hrange.next (chunkLength_pos ii hpos) (chunkLength_le ii iRem)
  rw [writeChunks, if_pos hpos]
  simp only [realOff_eq hblob hrange, hfloor]
  by_cases hlow : journalAddr pReal.nBlob ii < pReal.nDatabase + BLOCKSIZE
  · rw [if_pos hlow, if_pos hlow]
  · have hoff : 0 ≤ journalAddr pReal.nBlob ii := by
      simp only [BLOCKSIZE] at hlow
      omega
    rw [if_neg hlow, if_neg hlow, realAmt_eq hblob hoff, hnext]

omit hblob hdb hdbLt in
theorem writeChunks_done {pF : ParentFile} {io : Outcomes} {zBuf : Bytes} {iBuf ii : Int} :
    writeChunks pReal pF io zBuf 0 iBuf ii = (.ok, pF) := by
  rw [writeChunks, if_neg (lt_irrefl 0)]

theorem writeChunks_spec (pF : ParentFile) (io : Outcomes) (zBuf : Bytes) {iRem : Int}
    (iBuf : Int) {ii : Int} (hrange : JournalRange ii iRem) :
    ChunksWritten pReal pF zBuf iRem iBuf ii (writeChunks pReal pF io zBuf iRem iBuf ii) := by
  induction hn : iRem.toNat using Nat.strong_induction_on
    generalizing pF io iRem iBuf ii with
  | _ n ih =>
  rcases hrange.length.eq_or_lt with hzero | hpos
  · subst hzero
    rw [writeChunks_done]
    exact ⟨fun _ => rfl, fun _ _ => rfl, fun _ j hlo hhi => by omega, fun _ j hlo hhi => by omega⟩
  have hlen := chunkLength_pos ii hpos
  have hle := chunkLength_le ii iRem
  rw [writeChunks_step hblob hdb hdbLt hrange hpos]
  split_ifs with hlow
  · exact ⟨fun _ => rfl, fun _ _ => rfl, nofun, nofun⟩
  set put := pF.xWrite (io 0) (fun k => zBuf (iBuf + k)) (chunkLength ii iRem)
    (journalAddr pReal.nBlob ii) with hput
  have hend : journalAddr pReal.nBlob ii + chunkLength ii iRem ≤ pReal.nBlob := by
    have hdvd := hblob.dvd
    have hfirst := hrange.first
    simp only [journalAddr, reversed, chunkLength, BLOCKSIZE] at *
    omega
  have hputSize : pReal.nBlob ≤ pF.size → put.2.size = pF.size :=
    fun hsize => ParentFile.xWrite_size (hend.trans hsize)
  have hputFrame : ∀ x, (journalAddr pReal.nBlob x < ii ∨
      ii + chunkLength ii iRem ≤ journalAddr pReal.nBlob x) → put.2.byte x = pF.byte x := by
    intro x hx
    refine ParentFile.xWrite_frame ?_
    have hmem := mem_chunk_iff hblob ii iRem x
    omega
  have hlowFrame : ∀ x, x < pReal.nDatabase + BLOCKSIZE → put.2.byte x = pF.byte x :=
    fun x hx => ParentFile.xWrite_frame (Or.inl (by omega))
  simp only
  split_ifs with hok
  · have hrest := ih (iRem - chunkLength ii iRem).toNat (by omega) put.2 (fun n => io (n + 1))
      (iBuf + chunkLength ii iRem) (hrange.advance hlen hle) rfl
    refine ⟨?_, ?_, ?_, ?_⟩
    · intro hsize
      have hput := hputSize hsize
      exact (hrest.size (hsize.trans hput.ge)).trans hput
    · intro x hx
      have hlater : put.2.byte x = pF.byte x := by
        rcases hx with hx | hx
        · exact hlowFrame x hx
        · exact hputFrame x (by omega)
      exact (hrest.frame x (by omega)).trans hlater
    · intro hrc j hlo hhi
      by_cases hin : j < ii + chunkLength ii iRem
      · -- a byte of this chunk: the later chunks do not touch it
        have hkeep := hrest.frame (journalAddr pReal.nBlob j)
          (by rw [journalAddr_journalAddr hblob]; omega)
        rw [hkeep, (ParentFile.xWrite_ok hok).2, journalAddr_chunk hlo hin,
          ParentFile.put_inside (by omega) (by omega)]
        congr 1
        omega
      · rw [hrest.stored hrc j (by omega) (by omega)]
        congr 1
        omega
    · intro hrc
      exact (StartsAbove.step_iff hpos).mpr ⟨not_lt.mp hlow, hrest.starts hrc⟩
  · refine ⟨hputSize, ?_, fun h => absurd h hok, fun h => absurd h hok⟩
    intro x hx
    rcases hx with hx | hx
    · exact hlowFrame x hx
    · exact hputFrame x (by omega)

/-- The loop ends with `SQLITE_OK` or `SQLITE_FULL` according to where the
chunks start, or with the code of a parent write that failed. -/
theorem writeChunks_rc (pF : ParentFile) (io : Outcomes) (zBuf : Bytes) {iRem : Int}
    (iBuf : Int) {ii : Int} (hrange : JournalRange ii iRem) :
    let rc := (writeChunks pReal pF io zBuf iRem iBuf ii).1
    (rc = .ok ∧ StartsAbove pReal.nBlob (pReal.nDatabase + BLOCKSIZE) ii iRem) ∨
      (rc = .full ∧ ¬StartsAbove pReal.nBlob (pReal.nDatabase + BLOCKSIZE) ii iRem) ∨
      ∃ k failure, io k = .fails failure ∧ rc = failure.rc := by
  induction hn : iRem.toNat using Nat.strong_induction_on
    generalizing pF io iRem iBuf ii with
  | _ n ih =>
  rcases hrange.length.eq_or_lt with hzero | hpos
  · subst hzero
    rw [writeChunks_done]
    exact Or.inl ⟨rfl, fun j hlo hhi => by omega⟩
  have hlen := chunkLength_pos ii hpos
  have hle := chunkLength_le ii iRem
  rw [writeChunks_step hblob hdb hdbLt hrange hpos, StartsAbove.step_iff hpos]
  split_ifs with hlow
  · exact Or.inr (Or.inl ⟨rfl, fun h => absurd h.1 (not_le.mpr hlow)⟩)
  have hoff : 0 ≤ journalAddr pReal.nBlob ii := by
    simp only [BLOCKSIZE] at hlow
    omega
  cases hio : io 0 with
  | fails failure =>
      refine Or.inr (Or.inr ⟨0, failure, hio, ?_⟩)
      simp only [ParentFile.xWrite, failure.rc_ne_ok, if_false]
  | done =>
      simp only [ParentFile.xWrite_done hoff, if_true]
      have hrest := ih (iRem - chunkLength ii iRem).toNat (by omega)
        (pF.put (fun k => zBuf (iBuf + k)) (journalAddr pReal.nBlob ii) (chunkLength ii iRem))
        (fun n => io (n + 1)) (iBuf + chunkLength ii iRem) (hrange.advance hlen hle) rfl
      rcases hrest with ⟨hrc, hstarts⟩ | ⟨hrc, hstarts⟩ | ⟨k, failure, hfail, hrc⟩
      · exact Or.inl ⟨hrc, not_lt.mp hlow, hstarts⟩
      · exact Or.inr (Or.inl ⟨hrc, fun h => hstarts h.2⟩)
      · exact Or.inr (Or.inr ⟨k + 1, failure, hfail, hrc⟩)

end

/-- Below its floor the write loop changes nothing, whatever sizes it runs with. -/
theorem writeChunks_below {pReal : Sizes} {x : Int}
    (hx : x < int32 (pReal.nDatabase + BLOCKSIZE)) (pF : ParentFile) (io : Outcomes)
    (zBuf : Bytes) (iRem iBuf ii : Int) :
    (writeChunks pReal pF io zBuf iRem iBuf ii).2.byte x = pF.byte x := by
  fun_induction writeChunks pReal pF io zBuf iRem iBuf ii with
  | case1 pF io iRem iBuf ii hpos iRealOff hlow => rfl
  | case2 pF io iRem iBuf ii hpos iRealOff iRealAmt hlow put hok ih =>
      exact ih.trans (ParentFile.xWrite_frame (Or.inl (by omega)))
  | case3 pF io iRem iBuf ii hpos iRealOff iRealAmt hlow put hok =>
      exact ParentFile.xWrite_frame (Or.inl (by omega))
  | case4 pF io iRem iBuf ii hpos => rfl

/-- On an ideal medium the loop ends with `SQLITE_OK` exactly when no chunk
starts below its floor or before the start of the file, whatever size the
database has. -/
theorem writeChunks_ok_iff {pReal : Sizes} (hblob : WholeBlob pReal.nBlob) {pF : ParentFile}
    {io : Outcomes} (hio : io.Ideal) {zBuf : Bytes} {iRem iBuf ii : Int}
    (hrange : JournalRange ii iRem) :
    (writeChunks pReal pF io zBuf iRem iBuf ii).1 = .ok ↔
      StartsAbove pReal.nBlob (max 0 (int32 (pReal.nDatabase + BLOCKSIZE))) ii iRem := by
  fun_induction writeChunks pReal pF io zBuf iRem iBuf ii with
  | case1 pF io iRem iBuf ii hpos iRealOff hlow =>
      rw [StartsAbove.step_iff hpos, ← realOff_eq hblob hrange]
      refine iff_of_false nofun ?_
      rintro ⟨hfirst, -⟩
      exact absurd hlow (not_lt.mpr ((le_max_right _ _).trans hfirst))
  | case2 pF io iRem iBuf ii hpos iRealOff iRealAmt hlow put hput ih =>
      have hoff := (ParentFile.xWrite_ok hput).1
      have hamt : iRealAmt = chunkLength ii iRem := by
        simp only [iRealAmt, iRealOff, realOff_eq hblob hrange] at hoff ⊢
        exact realAmt_eq hblob hoff
      have hlen := chunkLength_pos ii hpos
      have hle := chunkLength_le ii iRem
      have hnext := hrange.next hlen hle
      simp only [hamt, hnext] at ih ⊢
      rw [StartsAbove.step_iff hpos, ← realOff_eq hblob hrange,
        ih hio.tail (hrange.advance hlen hle)]
      exact (and_iff_right (max_le hoff (not_lt.mp hlow))).symm
  | case3 pF io iRem iBuf ii hpos iRealOff iRealAmt hlow put hput =>
      rw [StartsAbove.step_iff hpos, ← realOff_eq hblob hrange]
      refine iff_of_false hput ?_
      rintro ⟨hfirst, -⟩
      apply hput
      change (pF.xWrite (io 0) _ iRealAmt (realOff pReal.nBlob ii)).1 = .ok
      rw [hio 0, ParentFile.xWrite_done ((le_max_left _ _).trans hfirst)]
  | case4 pF io iRem iBuf ii hpos =>
      refine iff_of_true rfl ?_
      intro j hlo hhi
      omega

section

variable {nBlob : Int} (hblob : WholeBlob nBlob)
include hblob

theorem readChunks_step {pF : ParentFile} {io : Outcomes} (hio : io.Ideal) {zBuf : Bytes}
    {iRem iBuf ii : Int} (hrange : JournalRange ii iRem) (hpos : 0 < iRem)
    (hin : ii + iRem ≤ nBlob) (hsize : pF.size = nBlob) :
    readChunks nBlob pF io zBuf iRem iBuf ii =
      readChunks nBlob pF (fun n => io (n + 1))
        (overlay zBuf (fun k => pF.byte (journalAddr nBlob ii + k)) iBuf (chunkLength ii iRem))
        (iRem - chunkLength ii iRem) (iBuf + chunkLength ii iRem)
        (ii + chunkLength ii iRem) := by
  have hlen := chunkLength_pos ii hpos
  have hle := chunkLength_le ii iRem
  have hfirst := hrange.first
  have hlast := hrange.last
  have hdvd := hblob.dvd
  have hoff : 0 ≤ journalAddr nBlob ii := by
    simp only [journalAddr, reversed, BLOCKSIZE] at *
    omega
  have hend : journalAddr nBlob ii + chunkLength ii iRem ≤ pF.size := by
    simp only [journalAddr, reversed, chunkLength, BLOCKSIZE, hsize] at *
    omega
  have hnext := hrange.next hlen hle
  have hbuf : (fun k => overlay (fun k => zBuf (iBuf + k))
      (fun k => pF.byte (journalAddr nBlob ii + k)) 0 (chunkLength ii iRem) (k - iBuf)) =
      overlay zBuf (fun k => pF.byte (journalAddr nBlob ii + k)) iBuf (chunkLength ii iRem) := by
    funext k
    by_cases hk : iBuf ≤ k ∧ k < iBuf + chunkLength ii iRem
    · rw [overlay_inside hk.1 hk.2, overlay_inside (by omega) (by omega), sub_zero]
    · rw [overlay_outside (by omega), overlay_outside (by omega), add_sub_cancel]
  rw [readChunks, if_pos hpos]
  simp only [realOff_eq hblob hrange, realAmt_eq hblob hoff, hio 0,
    ParentFile.xRead_inside hoff hend, if_true, hnext, hbuf]

/-- Reading a range inside the blob gives the bytes at the reversed addresses
and touches nothing else of the buffer. -/
theorem readChunks_spec {pF : ParentFile} {io : Outcomes} (hio : io.Ideal) {zBuf : Bytes}
    {iRem iBuf ii : Int} (hrange : JournalRange ii iRem) (hin : ii + iRem ≤ nBlob)
    (hsize : pF.size = nBlob) :
    readChunks nBlob pF io zBuf iRem iBuf ii =
      (.ok, overlay zBuf (fun k => pF.byte (journalAddr nBlob (ii + k))) iBuf iRem) := by
  induction hn : iRem.toNat using Nat.strong_induction_on
    generalizing io zBuf iRem iBuf ii with
  | _ n ih =>
  rcases hrange.length.eq_or_lt with hzero | hpos
  · subst hzero
    rw [readChunks, if_neg (lt_irrefl 0)]
    congr 1
    funext k
    rw [overlay_outside (by omega)]
  have hlen := chunkLength_pos ii hpos
  have hle := chunkLength_le ii iRem
  rw [readChunks_step hblob hio hrange hpos hin hsize,
    ih (iRem - chunkLength ii iRem).toNat (by omega) hio.tail (hrange.advance hlen hle)
      (by omega) rfl]
  congr 1
  funext k
  by_cases hchunk : iBuf ≤ k ∧ k < iBuf + chunkLength ii iRem
  · have haddr : journalAddr nBlob (ii + (k - iBuf)) =
        journalAddr nBlob ii + (ii + (k - iBuf) - ii) :=
      journalAddr_chunk (by omega) (show ii + (k - iBuf) < ii + chunkLength ii iRem by omega)
    rw [overlay_outside (by omega), overlay_inside hchunk.1 hchunk.2,
      overlay_inside hchunk.1 (by omega), haddr, add_sub_cancel_left]
  · by_cases hrest : iBuf + chunkLength ii iRem ≤ k ∧ k < iBuf + iRem
    · rw [overlay_inside hrest.1 (by omega), overlay_inside (by omega) hrest.2]
      congr 2
      omega
    · rw [overlay_outside (by omega), overlay_outside (by omega), overlay_outside (by omega)]

end

end SqliteFs
