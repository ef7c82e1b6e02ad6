import SqliteFs.OneDatabase

/-!
Journal writes over the full range of `iOfst`. The offset is cut to 32 bits
before the loop computes addresses with it, and the new size is cut to 32 bits
after the maximum is taken. Nothing else limits them: what keeps an offset out
is only that some chunk's address comes out inside the database region.
-/

namespace SqliteFs

open Lib

/-! ## The write loop from any `int` -/

/-- A chunk of a range starts where the range does or at a block boundary inside it. -/
def ChunkStart (ii iRem j : Int) : Prop :=
  ii ≤ j ∧ j < ii + iRem ∧ (j = ii ∨ BLOCKSIZE ∣ j)

theorem chunkStart_step {ii iRem j : Int} (hpos : 0 < iRem) :
    ChunkStart ii iRem j ↔
      j = ii ∨ ChunkStart (ii + chunkLength ii iRem) (iRem - chunkLength ii iRem) j := by
  simp only [ChunkStart, chunkLength, BLOCKSIZE]
  omega

/-- The address of some chunk comes out below `floor`. -/
def Refused (nBlob floor ii iRem : Int) : Prop :=
  ∃ j, ChunkStart ii iRem j ∧ realOff nBlob j < floor

theorem refused_step {nBlob floor ii iRem : Int} (hpos : 0 < iRem) :
    Refused nBlob floor ii iRem ↔ realOff nBlob ii < floor ∨
      Refused nBlob floor (ii + chunkLength ii iRem) (iRem - chunkLength ii iRem) := by
  simp only [Refused, chunkStart_step hpos, or_and_right, exists_or, exists_eq_left]

/-- The loop comes to a parent write that fails: the chunks up to it are not
refused, and the writes before it are carried out. -/
inductive ReachesFailure (nBlob floor : Int) : Outcomes → Int → Int → Failure → Prop
  | first {io ii iRem failure} (hpos : 0 < iRem) (hstarts : floor ≤ realOff nBlob ii)
    (hfails : io 0 = .fails failure) : ReachesFailure nBlob floor io ii iRem failure
  | later {io ii iRem failure} (hpos : 0 < iRem) (hstarts : floor ≤ realOff nBlob ii)
    (hdone : io 0 = .done)
    (hrest : ReachesFailure nBlob floor (fun n => io (n + 1)) (ii + chunkLength ii iRem)
      (iRem - chunkLength ii iRem) failure) : ReachesFailure nBlob floor io ii iRem failure

section

variable {nBlob : Int} (hblob : WholeBlob nBlob)
include hblob

/-- Addresses keep the position in the block, also of a negative `ii`. -/
theorem realOff_emod (ii : Int) : realOff nBlob ii % 512 = ii % 512 := by
  have hdvd := hblob.dvd
  have hmod := Int.mul_tdiv_add_tmod ii 512
  unfold realOff int32
  simp only [BLOCKSIZE] at *
  omega

theorem realAmt_wide {ii iRem : Int} (hoff : 0 ≤ realOff nBlob ii) :
    realAmt iRem (realOff nBlob ii) = chunkLength ii iRem := by
  rw [realAmt_eq_of_nonneg hoff, realOff_emod hblob, chunkLength]

/-- An offset with an address behind block 0 lies before the end of the blob. -/
theorem lt_of_realOff {ii : Int} (hhi : ii < 2147483648) (hoff : BLOCKSIZE ≤ realOff nBlob ii) :
    ii < nBlob := by
  by_contra hpast
  have hnonneg := hblob.nonneg
  have hlt := hblob.lt
  have heq := realOff_eq_of_int hnonneg hlt (show 0 ≤ ii by omega) hhi
  simp only [journalAddr, reversed, BLOCKSIZE] at *
  omega

end

theorem not_reachesFailure {nBlob floor ii iRem : Int} {io : Outcomes} {failure : Failure}
    (hio : io.Ideal) : ¬ReachesFailure nBlob floor io ii iRem failure := by
  intro h
  induction h with
  | first _ _ hfails =>
      rw [hio 0] at hfails
      cases hfails
  | later _ _ _ _ ih => exact ih hio.tail

/-- Unless a parent write fails, the loop is refused exactly when some chunk's
address comes out inside the database region, from whatever `int` it starts. -/
theorem writeChunks_wide {pReal : Sizes} (hblob : WholeBlob pReal.nBlob)
    (hdb : 0 ≤ pReal.nDatabase) (hdbLt : pReal.nDatabase + BLOCKSIZE < 2147483648)
    (pF : ParentFile) (io : Outcomes) (zBuf : Bytes) (iRem iBuf : Int) {ii : Int}
    (hlo : -2147483648 ≤ ii) (hhi : ii < 2147483648) :
    let rc := (writeChunks pReal pF io zBuf iRem iBuf ii).1
    (rc = .ok ∧ ¬Refused pReal.nBlob (pReal.nDatabase + BLOCKSIZE) ii iRem) ∨
      (rc = .full ∧ Refused pReal.nBlob (pReal.nDatabase + BLOCKSIZE) ii iRem) ∨
      ∃ failure, ReachesFailure pReal.nBlob (pReal.nDatabase + BLOCKSIZE) io ii iRem failure ∧
        rc = failure.rc := by
  have hfloor : int32 (pReal.nDatabase + BLOCKSIZE) = pReal.nDatabase + BLOCKSIZE := by
    exact int32_of_bounds (by simp only [BLOCKSIZE]; omega) hdbLt
  fun_induction writeChunks pReal pF io zBuf iRem iBuf ii with
  | case1 pF io iRem iBuf ii hpos iRealOff hlow =>
      rw [hfloor] at hlow
      exact Or.inr (Or.inl ⟨rfl, (refused_step hpos).mpr (Or.inl hlow)⟩)
  | case2 pF io iRem iBuf ii hpos iRealOff iRealAmt hlow put hput ih =>
      rw [hfloor] at hlow
      have hoff : BLOCKSIZE ≤ realOff pReal.nBlob ii := by
        simp only [iRealOff, BLOCKSIZE] at hlow ⊢
        omega
      have hamt : iRealAmt = chunkLength ii iRem :=
        realAmt_wide hblob (le_trans (by decide) hoff)
      have hinside := lt_of_realOff hblob hhi hoff
      have hlt := hblob.lt
      have hdvd := hblob.dvd
      have hnext : int32 (ii + chunkLength ii iRem) = ii + chunkLength ii iRem := by
        apply int32_of_bounds
        all_goals
          simp only [chunkLength, BLOCKSIZE] at *
          omega
      have hbounds := int32_range (ii + chunkLength ii iRem)
      rw [hnext] at hbounds
      simp only [hamt, hnext] at ih ⊢
      rw [refused_step hpos, or_iff_right hlow]
      rcases ih hbounds.1 hbounds.2 with hstored | hrefused | ⟨failure, hreaches, hrc⟩
      · exact Or.inl hstored
      · exact Or.inr (Or.inl hrefused)
      · refine Or.inr (Or.inr ⟨failure, .later hpos (not_lt.mp hlow) ?_ hreaches, hrc⟩)
        cases hio : io 0 with
        | done => rfl
        | fails failure' =>
            have hrc' : put.1 = failure'.rc := by
              change (pF.xWrite (io 0) _ iRealAmt iRealOff).1 = failure'.rc
              simp only [hio, ParentFile.xWrite]
            exact absurd (hrc'.symm.trans hput) failure'.rc_ne_ok
  | case3 pF io iRem iBuf ii hpos iRealOff iRealAmt hlow put hput =>
      rw [hfloor] at hlow
      have hoff : 0 ≤ iRealOff := by
        simp only [BLOCKSIZE] at hlow
        omega
      right
      right
      cases hio : io 0 with
      | done =>
          exfalso
          apply hput
          change (pF.xWrite (io 0) _ iRealAmt iRealOff).1 = .ok
          rw [hio, ParentFile.xWrite_done hoff]
      | fails failure =>
          refine ⟨failure, .first hpos (not_lt.mp hlow) hio, ?_⟩
          change (pF.xWrite (io 0) _ iRealAmt iRealOff).1 = failure.rc
          simp only [hio, ParentFile.xWrite]
  | case4 pF io iRem iBuf ii hpos =>
      refine Or.inl ⟨rfl, ?_⟩
      rintro ⟨j, ⟨hfirst, hlast, -⟩, -⟩
      omega

/-! ## Sessions with writes of any offset -/

/-- The ranges whose ends the 64-bit sums of the code can hold. -/
structure WideArgs (iAmt iOfst : Int) : Prop where
  ofst : 0 ≤ iOfst
  ofstLt : iOfst < 9223372036854775808 - 2147483648
  amt : 0 < iAmt
  amtLt : iAmt < 2147483648

/-- As `InRange`, with writes of any 64-bit offset. -/
def Sys.WideRange (s : Sys) : Call → Prop
  | .xWrite id _ iAmt iOfst _ => ∀ h, s.handle id = some h → WideArgs iAmt iOfst ∧
    (h.file.eType = .database → iAmt + iOfst + BLOCKSIZE < 9223372036854775808)
  | .xTruncate _ size => 0 ≤ size
  | _ => True

/-- The calls of a session, with writes of any 64-bit offset. -/
structure Sys.WideCall (n : Name) (s : Sys) (c : Call) : Prop where
  about : c.About n
  inRange : s.WideRange c
  staysOpen : s.StaysOpen c

/-- What is left of the account: the journal size may be any `int`, and the
database may end anywhere below 2^31. -/
structure Sizes.Wide (z : Sizes) (_ : ParentFile) (_ : Unit) : Prop where
  blob : z.nBlob = BLOBSIZE
  database : 0 ≤ z.nDatabase
  databaseLt : z.nDatabase + BLOCKSIZE < 2147483648
  journalLt : z.nJournal < 2147483648

theorem Sizes.Wide.fresh {f : ParentFile} : Sizes.Wide ⟨0, 0, BLOBSIZE⟩ f () :=
  ⟨rfl, le_refl 0, by decide, by decide⟩

theorem Sizes.Wide.write {z : Sizes} {f f' : ParentFile} (hz : z.Wide f ()) {eType : EType}
    {io : Outcomes} {zBuf : Bytes} {iAmt iOfst : Int} :
    (fsWrite eType z f io zBuf iAmt iOfst).2.1.Wide f' () := by
  obtain ⟨hblob, hdb, hdbLt, hjournal⟩ := hz
  rcases fsWrite_sizes eType z f io zBuf iAmt iOfst with heq | ⟨-, hfit, heq⟩ | ⟨-, heq⟩
  · rw [heq]
    exact ⟨hblob, hdb, hdbLt, hjournal⟩
  · have hspace := int32_range (z.nBlob - z.nJournal)
    have hmax : int32 (max z.nDatabase (iAmt + iOfst)) = max z.nDatabase (iAmt + iOfst) := by
      simp only [BLOCKSIZE] at *
      exact int32_of_bounds (by omega) (by omega)
    rw [heq]
    constructor
    all_goals
      simp only [hmax, BLOCKSIZE] at *
      omega
  · rw [heq]
    exact ⟨hblob, hdb, hdbLt, (int32_range _).2⟩

theorem Sizes.Wide.truncate {z : Sizes} {f : ParentFile} (hz : z.Wide f ()) {eType : EType}
    {size : Int} (hsize : 0 ≤ size) : (fsTruncate eType z size).Wide f () := by
  obtain ⟨hblob, hdb, hdbLt, hjournal⟩ := hz
  have hmin : int32 (min z.nDatabase size) = min z.nDatabase size := by
    simp only [BLOCKSIZE] at hdbLt
    exact int32_of_bounds (by omega) (by omega)
  unfold fsTruncate
  split_ifs
  · constructor
    all_goals
      simp only [hmin, BLOCKSIZE] at *
      omega
  · exact ⟨hblob, hdb, hdbLt, (int32_range _).2⟩

/-- The parent file does not matter. -/
theorem Sizes.Wide.ofFile {z : Sizes} {f f' : ParentFile} (hz : z.Wide f ()) : z.Wide f' () :=
  ⟨hz.blob, hz.database, hz.databaseLt, hz.journalLt⟩

theorem Sizes.Wide.delete {z : Sizes} {f f' : ParentFile} (hz : z.Wide f ()) {io : Outcomes} :
    (deleteReal z f io).2.1.Wide f' () := by
  obtain ⟨hblob, hdb, hdbLt, hjournal⟩ := hz
  rcases deleteReal_sizes z f io with heq | heq
  · rw [heq]
    exact ⟨hblob, hdb, hdbLt, hjournal⟩
  · rw [heq]
    exact ⟨hblob, hdb, hdbLt, show (0 : Int) < 2147483648 by decide⟩

theorem wide_run {n : Name} {disk : Disk} {calls : List Call} {s : Sys}
    (hfresh : (disk n).size = 0)
    (hrun : Run Sys.next (Sys.WideCall n) (Sys.start disk) calls s) :
    s.Serves n ∧ (s.db n).Session () Sizes.Wide () := by
  apply hrun.invariant _ (Sys.next_keeps (fun d => d.Session () Sizes.Wide ())
    (fun _ _ hcall => hcall.about) ?_) ⟨Sys.start_serves disk n, hfresh, rfl⟩
  intro s c r d hs hinv hcall heffect
  apply Db.Session.effect hs hcall.staysOpen (g := ()) ?_ (fun _ _ => rfl) (fun _ => rfl)
    ?_ ?_ ?_ ?_ hinv heffect
  · exact fun f _ => Sizes.Wide.fresh
  · rintro id zBuf iAmt iOfst io h z rfl - - - hz
    exact hz.write
  · rintro id size h z rfl - - hz
    exact hz.truncate hcall.inRange
  · rintro id io h z rfl - hz
    exact hz.ofFile
  · rintro zPath io z rfl - hz
    exact hz.delete

/-- What a journal write comes to from such a record: unless the parent fails
the loop decides, and the sums are cut to 32 bits. -/
theorem fsWrite_journal_wide {z : Sizes} {f : ParentFile} (hz : z.Wide f ()) (io : Outcomes)
    (zBuf : Bytes) (iAmt iOfst : Int) :
    let put := writeChunks z f io zBuf iAmt 0 (int32 iOfst)
    (¬Refused z.nBlob (z.nDatabase + BLOCKSIZE) (int32 iOfst) iAmt ∧ put.1 = .ok ∧
      fsWrite .journal z f io zBuf iAmt iOfst =
        (.ok, { z with nJournal := int32 (max z.nJournal (iAmt + iOfst)) }, put.2)) ∨
    (Refused z.nBlob (z.nDatabase + BLOCKSIZE) (int32 iOfst) iAmt ∧
      fsWrite .journal z f io zBuf iAmt iOfst = (.full, z, put.2)) ∨
    ∃ failure, ReachesFailure z.nBlob (z.nDatabase + BLOCKSIZE) io (int32 iOfst) iAmt failure ∧
      (fsWrite .journal z f io zBuf iAmt iOfst).1 = failure.rc := by
  intro put
  have hblob : WholeBlob z.nBlob := by
    rw [hz.blob]
    exact wholeBlob_BLOBSIZE
  have hrange := int32_range iOfst
  have hwrite : fsWrite .journal z f io zBuf iAmt iOfst =
      if put.1 = .ok then
        (put.1, { z with nJournal := int32 (max z.nJournal (iAmt + iOfst)) }, put.2)
      else (put.1, z, put.2) := by
    unfold fsWrite
    rw [if_neg (by decide)]
  rcases writeChunks_wide hblob hz.database hz.databaseLt f io zBuf iAmt 0 hrange.1 hrange.2 with
    ⟨hrc, hstarts⟩ | ⟨hrc, hlow⟩ | ⟨failure, hfail, hrc⟩
  · have hput : put.1 = .ok := hrc
    exact Or.inl ⟨hstarts, hput, by rw [hwrite, if_pos hput, hput]⟩
  · have hput : put.1 = .full := hrc
    exact Or.inr (Or.inl ⟨hlow, by rw [hwrite, if_neg (by rw [hput]; exact nofun), hput]⟩)
  · have hput : put.1 = failure.rc := hrc
    refine Or.inr (Or.inr ⟨failure, hfail, ?_⟩)
    rw [hwrite, if_neg (by rw [hput]; exact failure.rc_ne_ok)]
    exact hput

/-- A journal write is refused and leaves the journal size, or stores its
bytes, leaves the others and makes the size the maximum. -/
def Sys.JournalExact (n : Name) (s t : Sys) (h : Handle) (rc : Rc) (zBuf : Bytes)
    (iAmt iOfst : Int) : Prop :=
  (rc = .full ∧ (t.pReal h).nJournal = (s.pReal h).nJournal) ∨
    ((∀ j, iOfst ≤ j → j < iOfst + iAmt →
        (t.disk n).byte (journalAddr (s.pReal h).nBlob j) = zBuf (j - iOfst)) ∧
      (∀ j, j < iOfst ∨ iOfst + iAmt ≤ j →
        (t.disk n).byte (journalAddr (s.pReal h).nBlob j) =
          (s.disk n).byte (journalAddr (s.pReal h).nBlob j)) ∧
      (t.pReal h).nJournal = max (s.pReal h).nJournal (iOfst + iAmt))

/-- What the loop stored and the size set behind it are exact only for a write
that ends below 2^31. -/
theorem Sizes.Wide.stored_exact_iff {z : Sizes} {f : ParentFile} (hz : z.Wide f ())
    {io : Outcomes} {zBuf : Bytes} {iAmt iOfst : Int} (hargs : WideArgs iAmt iOfst)
    (hok : (writeChunks z f io zBuf iAmt 0 (int32 iOfst)).1 = .ok) :
    let file := (writeChunks z f io zBuf iAmt 0 (int32 iOfst)).2
    ((∀ j, iOfst ≤ j → j < iOfst + iAmt →
        file.byte (journalAddr z.nBlob j) = zBuf (j - iOfst)) ∧
      (∀ j, j < iOfst ∨ iOfst + iAmt ≤ j →
        file.byte (journalAddr z.nBlob j) = f.byte (journalAddr z.nBlob j)) ∧
      int32 (max z.nJournal (iOfst + iAmt)) = max z.nJournal (iOfst + iAmt)) ↔
    iOfst + iAmt < 2147483648 := by
  have hofst := hargs.ofst
  have hamt := hargs.amt
  have hjournal := hz.journalLt
  constructor
  · rintro ⟨-, -, hmax⟩
    have hrange := int32_range (max z.nJournal (iOfst + iAmt))
    rw [hmax] at hrange
    exact lt_of_le_of_lt (le_max_right _ _) hrange.2
  · intro hend
    have hcut : int32 iOfst = iOfst := int32_of_bounds (by omega) (by omega)
    have hblob : WholeBlob z.nBlob := by
      rw [hz.blob]
      exact wholeBlob_BLOBSIZE
    have hdbLt : z.nDatabase < 2147483648 - 512 := by
      have hlt := hz.databaseLt
      simp only [BLOCKSIZE] at hlt
      omega
    rw [hcut] at hok ⊢
    have hspec := writeChunks_spec hblob hz.database hdbLt f io zBuf 0 ⟨hofst, hamt.le, hend⟩
    refine ⟨?_, ?_, int32_of_bounds (by omega) (by omega)⟩
    · intro j hlo hhi
      rw [hspec.stored hok j hlo hhi, zero_add]
    · intro j hout
      apply hspec.frame
      rw [journalAddr_journalAddr hblob]
      omega

/-- In every state of a session a journal write of any offset, unless the loop
comes to a parent write that fails, is exact if and only if it ends below 2^31
or the cut offset happens to be refused. -/
theorem journal_write_exact_iff {n : Name} {disk : Disk} {calls : List Call} {s t : Sys}
    (hfresh : (disk n).size = 0)
    (hrun : Run Sys.next (Sys.WideCall n) (Sys.start disk) calls s) {id : Nat} {h : Handle}
    (hh : s.handle id = some h) (htype : h.file.eType = .journal) {iAmt iOfst : Int}
    (hargs : WideArgs iAmt iOfst) {zBuf : Bytes} {io : Outcomes} {r : Reply}
    (hstep : s.step (.xWrite id zBuf iAmt iOfst io) = some (t, r)) :
    (∃ failure, ReachesFailure (s.pReal h).nBlob ((s.pReal h).nDatabase + BLOCKSIZE) io
        (int32 iOfst) iAmt failure ∧ r.rc = failure.rc) ∨
      (s.JournalExact n t h r.rc zBuf iAmt iOfst ↔
        iOfst + iAmt < 2147483648 ∨ Refused (s.pReal h).nBlob
          ((s.pReal h).nDatabase + BLOCKSIZE) (int32 iOfst) iAmt) := by
  obtain ⟨hs, hsession⟩ := wide_run hfresh hrun
  have hmem := (Sys.handle_eq_some hh).1
  have hz := hs.session_handle hsession hmem
  obtain ⟨hrc, hsizes, hfile⟩ := hs.write_handle hh hstep
  unfold Sys.JournalExact
  rw [htype] at hrc hsizes hfile
  rcases fsWrite_journal_wide hz io zBuf iAmt iOfst with
    ⟨hstarts, hok, heq⟩ | ⟨hlow, heq⟩ | ⟨failure, hfail, heq⟩
  · right
    rw [heq] at hrc hsizes hfile
    have hnJournal := congrArg Sizes.nJournal hsizes
    simp only at hrc hnJournal hfile
    rw [or_iff_left hstarts, hrc, or_iff_right (fun hfull => by cases hfull.1), hnJournal, hfile,
      add_comm iAmt iOfst]
    exact hz.stored_exact_iff hargs hok
  · right
    rw [heq] at hrc hsizes
    exact iff_of_true (Or.inl ⟨hrc, congrArg Sizes.nJournal hsizes⟩) (Or.inr hlow)
  · exact Or.inl ⟨failure, hfail, hrc.trans heq⟩

/-- The database `"db"` is opened on an empty file, and its journal. -/
def openBoth : List Call :=
  [.xOpen 0 [100, 98] SQLITE_OPEN_MAIN_DB true carriedOut,
    .xOpen 1 ([100, 98] ++ journalSuffix) 0 true carriedOut]

def bothOpen : Sys := after Sys.next (Sys.start fun _ => .blank) openBoth

theorem bothOpen_run :
    Run Sys.next (Sys.WideCall [100, 98]) (Sys.start fun _ => .blank) openBoth bothOpen := by
  refine Run.of_after (fun c hc s => ?_) (by decide +kernel)
  fin_cases hc
  · exact ⟨Or.inl ⟨rfl, by decide⟩, trivial, trivial⟩
  · exact ⟨Or.inr ⟨rfl, by decide⟩, trivial, trivial⟩

def journalHandle : Handle := ⟨1, [100, 98], ⟨true, .journal, 1⟩⟩

theorem bothOpen_handle : bothOpen.handle 1 = some journalHandle := by decide +kernel

/-- Through the journal handle, `len` bytes at `iOfst`. -/
def journalWrite (len iOfst : Int) : Call := .xWrite 1 (fun _ => 7) len iOfst carriedOut

theorem journal_write_exact_iff_first :
    ∃ t r, bothOpen.step (journalWrite 512 0) = some (t, r) ∧
      bothOpen.JournalExact [100, 98] t journalHandle r.rc (fun _ => 7) 512 0 := by
  obtain ⟨t, r, hstep⟩ : ∃ t r, bothOpen.step (journalWrite 512 0) = some (t, r) := ⟨_, _, rfl⟩
  refine ⟨t, r, hstep, ?_⟩
  have hargs : WideArgs 512 0 := ⟨by decide, by decide, by decide, by decide⟩
  rcases journal_write_exact_iff rfl bothOpen_run bothOpen_handle rfl hargs hstep with
    ⟨failure, hfail, -⟩ | hiff
  · exact absurd hfail (not_reachesFailure fun _ => rfl)
  · exact hiff.mpr (Or.inl (by decide))

/-- Four bytes at 2^32 are accepted and stored at the start of the journal. -/
theorem wide_write_lands_at_start :
    Run Sys.next (Sys.WideCall [100, 98]) (Sys.start fun _ => .blank) openBoth bothOpen ∧
      WideArgs 4 4294967296 ∧
      ∃ t r, bothOpen.step (journalWrite 4 4294967296) = some (t, r) ∧ r.rc = .ok ∧
        (bothOpen.disk [100, 98]).byte (journalAddr BLOBSIZE 0) = 0 ∧
        (t.disk [100, 98]).byte (journalAddr BLOBSIZE 0) = 7 ∧
        ¬bothOpen.JournalExact [100, 98] t journalHandle r.rc (fun _ => 7) 4 4294967296 := by
  obtain ⟨t, r, hstep⟩ : ∃ t r, bothOpen.step (journalWrite 4 4294967296) = some (t, r) :=
    ⟨_, _, rfl⟩
  have hanswer : (bothOpen.step (journalWrite 4 4294967296)).map (fun out => (out.2.rc,
      (out.1.pReal journalHandle).nJournal, (out.1.disk [100, 98]).byte (journalAddr BLOBSIZE 0))) =
      some (.ok, 4, 7) := by decide +kernel
  rw [hstep, Option.map_some, Option.some.injEq, Prod.ext_iff, Prod.ext_iff] at hanswer
  obtain ⟨hrc, hsize, hbyte⟩ := hanswer
  refine ⟨bothOpen_run, ⟨by decide, by decide, by decide, by decide⟩, t, r, hstep, hrc,
    by decide +kernel, hbyte, ?_⟩
  rintro (⟨hfull, -⟩ | ⟨-, -, hmax⟩)
  · rw [hfull] at hrc
    cases hrc
  · have hbefore : (bothOpen.pReal journalHandle).nJournal = 0 := by decide +kernel
    simp only at hsize
    rw [hsize, hbefore] at hmax
    exact absurd hmax (by decide)

end SqliteFs
