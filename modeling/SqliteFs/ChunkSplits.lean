import SqliteFs.Opening
import SqliteFs.Lib.Pieces

/-!
Where the chunk loops take each journal offset, over all calls. The address is
computed from the journal offset, but the length of a chunk from the address.
Both reach the end of a block together only if the blob is a whole number of
blocks, and `fsOpen` takes a file of any size.
-/

namespace SqliteFs

open Lib

/-! ## The chunks of a transfer -/

/-- `ii`, `iRealOff` and `iRealAmt` of each turn of a chunk loop that nothing ends early. -/
def chunks (nBlob iRem ii : Int) : List Piece :=
  if 0 < iRem then
    let iRealOff := realOff nBlob ii
    let iRealAmt := realAmt iRem iRealOff
    ⟨ii, iRealOff, iRealAmt⟩ :: chunks nBlob (iRem - iRealAmt) (int32 (ii + iRealAmt))
  else []
termination_by iRem.toNat
decreasing_by
  have := realAmt_pos (by assumption) (realOff nBlob ii)
  omega

theorem chunks_cons {nBlob iRem ii : Int} (hpos : 0 < iRem) :
    chunks nBlob iRem ii = ⟨ii, realOff nBlob ii, realAmt iRem (realOff nBlob ii)⟩ ::
      chunks nBlob (iRem - realAmt iRem (realOff nBlob ii))
        (int32 (ii + realAmt iRem (realOff nBlob ii))) := by
  rw [chunks, if_pos hpos]

/-- Read one chunk after another, until a read is not answered `SQLITE_OK`. -/
def readEach (pF : ParentFile) : Outcomes → Bytes → Int → List Piece → Rc × Bytes
  | _, zBuf, _, [] => (.ok, zBuf)
  | io, zBuf, iBuf, chunk :: rest =>
    let got := pF.xRead (io 0) (fun k => zBuf (iBuf + k)) chunk.length chunk.addr
    let zBuf' : Bytes := fun k => got.2 (k - iBuf)
    if got.1 = .ok then readEach pF (fun n => io (n + 1)) zBuf' (iBuf + chunk.length) rest
    else (got.1, zBuf')

/-- Write one chunk after another, until one starts inside the database region
or a write is not answered `SQLITE_OK`. -/
def writeEach (nDatabase : Int) (zBuf : Bytes) :
    ParentFile → Outcomes → Int → List Piece → Rc × ParentFile
  | pF, _, _, [] => (.ok, pF)
  | pF, io, iBuf, chunk :: rest =>
    if chunk.addr < int32 (nDatabase + BLOCKSIZE) then (.full, pF)
    else
      let put := pF.xWrite (io 0) (fun k => zBuf (iBuf + k)) chunk.length chunk.addr
      if put.1 = .ok then
        writeEach nDatabase zBuf put.2 (fun n => io (n + 1)) (iBuf + chunk.length) rest
      else put

theorem readChunks_eq (nBlob : Int) (pF : ParentFile) (io : Outcomes) (zBuf : Bytes)
    (iRem iBuf ii : Int) : readChunks nBlob pF io zBuf iRem iBuf ii =
      readEach pF io zBuf iBuf (chunks nBlob iRem ii) := by
  fun_induction readChunks nBlob pF io zBuf iRem iBuf ii with
  | case1 io zBuf iRem iBuf ii hpos iRealOff iRealAmt got zBuf' hok ih =>
      rw [chunks_cons hpos, readEach]
      exact ih.trans (if_pos hok).symm
  | case2 io zBuf iRem iBuf ii hpos iRealOff iRealAmt got zBuf' hfail =>
      rw [chunks_cons hpos, readEach]
      exact (if_neg hfail).symm
  | case3 io zBuf iRem iBuf ii hpos => rw [chunks, if_neg hpos, readEach]

theorem writeChunks_eq (pReal : Sizes) (pF : ParentFile) (io : Outcomes) (zBuf : Bytes)
    (iRem iBuf ii : Int) : writeChunks pReal pF io zBuf iRem iBuf ii =
      writeEach pReal.nDatabase zBuf pF io iBuf (chunks pReal.nBlob iRem ii) := by
  fun_induction writeChunks pReal pF io zBuf iRem iBuf ii with
  | case1 pF io iRem iBuf ii hpos iRealOff hlow =>
      rw [chunks_cons hpos, writeEach]
      exact (if_pos hlow).symm
  | case2 pF io iRem iBuf ii hpos iRealOff iRealAmt hlow put hok ih =>
      rw [chunks_cons hpos, writeEach]
      exact ih.trans ((if_neg hlow).trans (if_pos hok)).symm
  | case3 pF io iRem iBuf ii hpos iRealOff iRealAmt hlow put hfail =>
      rw [chunks_cons hpos, writeEach]
      exact ((if_neg hlow).trans (if_neg hfail)).symm
  | case4 pF io iRem iBuf ii hpos => rw [chunks, if_neg hpos, writeEach]

/-! ## What they cover -/

/-- The chunks are cut from the range one after the other, whatever the blob. -/
theorem chunks_consecutive (nBlob : Int) {iRem ii : Int} (hrange : JournalRange ii iRem) :
    Consecutive ii iRem (chunks nBlob iRem ii) := by
  fun_induction chunks nBlob iRem ii with
  | case1 iRem ii hpos iRealOff iRealAmt ih =>
      have hamt : 0 < iRealAmt := realAmt_pos hpos iRealOff
      have hle : iRealAmt ≤ iRem := realAmt_le iRem iRealOff
      rw [hrange.next hamt hle] at ih ⊢
      exact .cons (p := ⟨ii, iRealOff, iRealAmt⟩) hamt hle (ih (hrange.advance hamt hle))
  | case2 iRem ii hpos =>
      obtain rfl : iRem = 0 := le_antisymm (not_lt.mp hpos) hrange.length
      exact .nil ii

/-- In a blob of whole blocks every chunk is where the address map puts it. -/
theorem chunks_follow {nBlob iRem ii : Int} (hblob : WholeBlob nBlob)
    (hrange : JournalRange ii iRem) (hin : ii + iRem ≤ nBlob) :
    ∀ chunk ∈ chunks nBlob iRem ii, chunk.Follows (journalAddr nBlob) := by
  fun_induction chunks nBlob iRem ii with
  | case1 iRem ii hpos iRealOff iRealAmt ih =>
      have hoff : iRealOff = journalAddr nBlob ii := realOff_eq hblob hrange
      have hnonneg : 0 ≤ journalAddr nBlob ii := by
        have hdvd := hblob.dvd
        have hfirst := hrange.first
        simp only [journalAddr, reversed, BLOCKSIZE] at *
        omega
      have hamt : iRealAmt = chunkLength ii iRem := by
        simp only [iRealAmt, hoff]
        exact realAmt_eq hblob hnonneg
      have hlen := chunkLength_pos ii hpos
      have hle := chunkLength_le ii iRem
      intro chunk hchunk
      rcases List.mem_cons.mp hchunk with rfl | hlater
      · intro k hlo hhi
        simp only [hoff, hamt] at hhi ⊢
        have hend : ii + k < ii + chunkLength ii iRem := by omega
        have haddr : journalAddr nBlob (ii + k) = journalAddr nBlob ii + (ii + k - ii) :=
          journalAddr_chunk (by omega) hend
        rw [haddr, add_sub_cancel_left]
      · rw [hamt, hrange.next hlen hle] at hlater ih
        exact ih (hrange.advance hlen hle) (by omega) chunk hlater
  | case2 iRem ii hpos =>
      intro chunk hchunk
      cases hchunk

/-! ## All calls together -/

/-- A transfer within the whole blocks of the blob. -/
structure JournalCall (nBlob iOfst iAmt : Int) : Prop where
  ofst : 0 ≤ iOfst
  amt : 0 < iAmt
  last : iOfst + iAmt ≤ nBlob - nBlob % BLOCKSIZE

/-- Each journal offset of a transfer with the media offset it is sent to, in order. -/
def sent (nBlob iOfst iAmt : Int) : List (Int × Int) :=
  placed (chunks nBlob iAmt (int32 iOfst))

/-- Some transfer sends journal offset `x.1` to media offset `x.2`. -/
def Sends (nBlob : Int) (x : Int × Int) : Prop :=
  ∃ iOfst iAmt, JournalCall nBlob iOfst iAmt ∧ x ∈ sent nBlob iOfst iAmt

/-- The journal address mapping of a blob does not depend on the calls. The
loops run over the chunks, which are finitely many and cover the range, and
what all transfers together send is a one-to-one map into the blob. -/
structure SplitIndependent (nBlob : Int) : Prop where
  reads : ∀ z : Sizes, z.nBlob = nBlob → ∀ pF io zBuf iAmt iOfst, iAmt + iOfst ≤ z.nJournal →
    fsRead .journal z pF io zBuf iAmt iOfst =
      readEach pF io zBuf 0 (chunks nBlob iAmt (int32 iOfst))
  writes : ∀ z : Sizes, z.nBlob = nBlob → ∀ pF io zBuf iAmt iOfst,
    ((fsWrite .journal z pF io zBuf iAmt iOfst).1,
        (fsWrite .journal z pF io zBuf iAmt iOfst).2.2) =
      writeEach z.nDatabase zBuf pF io 0 (chunks nBlob iAmt (int32 iOfst))
  covers : ∀ iOfst iAmt, JournalCall nBlob iOfst iAmt →
    (sent nBlob iOfst iAmt).map Prod.fst = offsets iOfst iAmt
  same : ∀ x y, Sends nBlob x → Sends nBlob y → x.1 = y.1 → x.2 = y.2
  distinct : ∀ x y, Sends nBlob x → Sends nBlob y → x.2 = y.2 → x.1 = y.1
  inside : ∀ x, Sends nBlob x → 0 ≤ x.2 ∧ x.2 < nBlob

theorem fsRead_eq_readEach {z : Sizes} {iAmt iOfst : Int} (hin : iAmt + iOfst ≤ z.nJournal)
    (pF : ParentFile) (io : Outcomes) (zBuf : Bytes) :
    fsRead .journal z pF io zBuf iAmt iOfst =
      readEach pF io zBuf 0 (chunks z.nBlob iAmt (int32 iOfst)) := by
  have hno : ¬iAmt + iOfst > z.nJournal := not_lt.mpr hin
  simp only [fsRead, hno, reduceCtorEq, and_false, false_and, or_self, if_false,
    readChunks_eq]

theorem fsWrite_eq_writeEach (z : Sizes) (pF : ParentFile) (io : Outcomes) (zBuf : Bytes)
    (iAmt iOfst : Int) :
    ((fsWrite .journal z pF io zBuf iAmt iOfst).1,
        (fsWrite .journal z pF io zBuf iAmt iOfst).2.2) =
      writeEach z.nDatabase zBuf pF io 0 (chunks z.nBlob iAmt (int32 iOfst)) := by
  rw [← writeChunks_eq]
  simp only [fsWrite, reduceCtorEq, if_false]
  split_ifs
  · rfl
  · rfl

theorem JournalCall.range {nBlob iOfst iAmt : Int} (h : JournalCall nBlob iOfst iAmt)
    (hlo : 0 ≤ nBlob) (hhi : nBlob < 2147483648) :
    JournalRange iOfst iAmt ∧ iOfst + iAmt ≤ nBlob := by
  obtain ⟨hofst, hamt, hlast⟩ := h
  simp only [BLOCKSIZE] at hlast
  exact ⟨⟨hofst, hamt.le, by omega⟩, by omega⟩

/-- In a blob of whole blocks all calls use one address map. -/
theorem Sends.eq_journalAddr {nBlob : Int} (hblob : WholeBlob nBlob) {x : Int × Int}
    (hx : Sends nBlob x) : x.2 = journalAddr nBlob x.1 ∧ 0 ≤ x.1 ∧ x.1 < nBlob := by
  obtain ⟨iOfst, iAmt, hcall, hsent⟩ := hx
  obtain ⟨hrange, hin⟩ := hcall.range hblob.nonneg hblob.lt
  unfold sent at hsent
  rw [hrange.start] at hsent
  have hmem := (chunks_consecutive nBlob hrange).mem_offsets hsent
  have haddr := placed_follows (chunks_follow hblob hrange hin) hsent
  exact ⟨haddr, hrange.first.trans hmem.1, hmem.2.trans_le hin⟩

/-- The first chunk of a call, and what it is followed by. -/
theorem sent_eq {nBlob iOfst iAmt addr length : Int} (hrange : JournalRange iOfst iAmt)
    (hpos : 0 < iAmt) (haddr : realOff nBlob iOfst = addr) (hlength : realAmt iAmt addr = length) :
    sent nBlob iOfst iAmt =
      Piece.places ⟨iOfst, addr, length⟩ ++ sent nBlob (iOfst + length) (iAmt - length) := by
  have hnext := hrange.next (realAmt_pos hpos addr) (realAmt_le iAmt addr)
  unfold sent placed
  rw [hrange.start, chunks_cons hpos, haddr, hlength, List.flatMap_cons, ← hlength, hnext]

section

variable {nBlob : Int} (hlo : 1024 ≤ nBlob) (hhi : nBlob < 2147483648)
include hlo hhi

/-- In any other blob a transfer from the start sends the first byte of the
second block behind the end of the blob. -/
theorem sends_behind_end (hrest : nBlob % 512 ≠ 0) : Sends nBlob (512, nBlob) := by
  refine ⟨0, 1024, ⟨by decide, by decide, by simp only [BLOCKSIZE]; omega⟩, ?_⟩
  -- the first chunk ends with a block of the medium, before the block of the journal
  have hfirst : realOff nBlob 0 = nBlob - 512 := by
    rw [realOff_eq_of_int (by omega) hhi (by decide) (by decide)]
    simp only [journalAddr, reversed, BLOCKSIZE]
    omega
  have hfirstAmt : realAmt 1024 (nBlob - 512) = 512 - nBlob % 512 := by
    rw [realAmt_eq_of_nonneg (by omega), BLOCKSIZE]
    omega
  -- the second is a block of the medium
  have hsecond : realOff nBlob (0 + (512 - nBlob % 512)) = nBlob - nBlob % 512 := by
    rw [realOff_eq_of_int (by omega) hhi (by omega) (by omega)]
    simp only [journalAddr, reversed, BLOCKSIZE]
    omega
  have hsecondAmt : realAmt (1024 - (512 - nBlob % 512)) (nBlob - nBlob % 512) = 512 := by
    rw [realAmt_eq_of_nonneg (by omega), BLOCKSIZE]
    omega
  rw [sent_eq ⟨by decide, by decide, by decide⟩ (by decide) hfirst hfirstAmt,
    sent_eq ⟨by omega, by omega, by omega⟩ (by omega) hsecond hsecondAmt]
  apply List.mem_append_right
  apply List.mem_append_left
  have hbyte : nBlob % 512 < 512 := Int.emod_lt_of_pos nBlob (by decide)
  refine Piece.mem_places.mpr ⟨nBlob % 512, ⟨by omega, hbyte⟩, ?_⟩
  simp only [Prod.mk.injEq]
  omega

/-- A transfer that starts with this byte sends it to the low end of a block,
as it should. -/
theorem sends_low_end : Sends nBlob (512, nBlob - 1024) := by
  refine ⟨512, 1, ⟨by decide, by decide, by simp only [BLOCKSIZE]; omega⟩, ?_⟩
  have hfirst : realOff nBlob 512 = nBlob - 1024 := by
    rw [realOff_eq_of_int (by omega) hhi (by decide) (by decide)]
    simp only [journalAddr, reversed, BLOCKSIZE]
    omega
  have hamt : realAmt 1 (nBlob - 1024) = 1 := by
    rw [realAmt_eq_of_nonneg (by omega), BLOCKSIZE]
    omega
  rw [sent_eq ⟨by decide, by decide, by decide⟩ (by decide) hfirst hamt]
  apply List.mem_append_left
  refine Piece.mem_places.mpr ⟨0, ⟨le_refl 0, zero_lt_one⟩, ?_⟩
  simp only [add_zero]

theorem splitIndependent_iff : SplitIndependent nBlob ↔ nBlob % 512 = 0 := by
  constructor
  · intro hsplit
    by_contra hrest
    have heq : nBlob = nBlob - 1024 :=
      hsplit.same _ _ (sends_behind_end hlo hhi hrest) (sends_low_end hlo hhi) rfl
    omega
  · intro hwhole
    have hblob : WholeBlob nBlob := ⟨Int.dvd_of_emod_eq_zero hwhole, by omega, hhi⟩
    have hsends : ∀ x, Sends nBlob x → x.2 = journalAddr nBlob x.1 ∧ 0 ≤ x.1 ∧ x.1 < nBlob :=
      fun _ hx => hx.eq_journalAddr hblob
    constructor
    case reads =>
      rintro z rfl pF io zBuf iAmt iOfst hin
      exact fsRead_eq_readEach hin pF io zBuf
    case writes =>
      rintro z rfl pF io zBuf iAmt iOfst
      exact fsWrite_eq_writeEach z pF io zBuf iAmt iOfst
    case covers =>
      intro iOfst iAmt hcall
      have hrange := (hcall.range hblob.nonneg hhi).1
      unfold sent
      rw [hrange.start]
      exact (chunks_consecutive nBlob hrange).covers
    case same =>
      intro x y hx hy heq
      rw [(hsends x hx).1, (hsends y hy).1, heq]
    case distinct =>
      intro x y hx hy heq
      rw [(hsends x hx).1, (hsends y hy).1] at heq
      have hback := congrArg (journalAddr nBlob) heq
      rwa [journalAddr_journalAddr hblob, journalAddr_journalAddr hblob] at hback
    case inside =>
      intro x hx
      obtain ⟨haddr, hfirst, hlast⟩ := hsends x hx
      rw [haddr]
      simp only [journalAddr, reversed, BLOCKSIZE]
      omega

end

/-- `fsOpen` takes any size, and the journal addresses of the blob are the same
for all calls exactly if the size is a multiple of 512. -/
theorem opened_splitIndependent_iff {f : ParentFile} {io : Outcomes} (hlo : 1024 ≤ f.size)
    (hhi : f.size < 2147483648) (hok : (openReal f io).1 = .ok) :
    (openReal f io).2.1.nBlob = f.size ∧
      (SplitIndependent (openReal f io).2.1.nBlob ↔ f.size % 512 = 0) := by
  have hblob : (openReal f io).2.1.nBlob = f.size :=
    (openReal_used (by omega) hok).2.1.trans (int32_of_bounds (by omega) hhi)
  rw [hblob]
  exact ⟨rfl, splitIndependent_iff hlo hhi⟩

/-- The two blocks of a database that is empty. -/
theorem opened_splitIndependent_iff_twoBlocks :
    SplitIndependent (openReal (twoBlocks 0) carriedOut).2.1.nBlob := by
  have hok : (openReal (twoBlocks 0) carriedOut).1 = .ok := by decide
  exact (opened_splitIndependent_iff (by decide) (by decide) hok).2.mpr (by decide)

/-- Two blocks and one byte. -/
def twoBlocksAndOne : ParentFile := (twoBlocks 0).put (fun _ => 0) 1024 1

/-- Opened from it, the blob has two media offsets for journal offset 512:
1025, behind its end, in a transfer of two blocks, and 1 in one of the second
block alone. -/
theorem odd_blob_splits : twoBlocksAndOne.size = 1025 ∧
    (openReal twoBlocksAndOne carriedOut).1 = .ok ∧
    (openReal twoBlocksAndOne carriedOut).2.1.nBlob = 1025 ∧
    Sends 1025 (512, 1025) ∧ Sends 1025 (512, 1) ∧ ¬SplitIndependent 1025 := by
  have hbehind : Sends 1025 (512, 1025) := sends_behind_end (by decide) (by decide) (by decide)
  have hlow : Sends 1025 (512, 1) := sends_low_end (by decide) (by decide)
  refine ⟨by decide, by decide, by decide, hbehind, hlow, ?_⟩
  intro hsplit
  have heq : (1025 : Int) = 1 := hsplit.same _ _ hbehind hlow rfl
  exact absurd heq (by decide)

end SqliteFs
