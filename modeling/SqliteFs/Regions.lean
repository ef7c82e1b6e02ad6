import SqliteFs.Chunks

/-!
What each file method does to the sizes and the bytes of one blob, stated once
for every outcome of the parent calls. `Account` is what a record has to know
about its parent file for the two regions to stay inside the blob, and every
method keeps it.
-/

namespace SqliteFs

open Lib

/-- A record that accounts for its parent file: the blob is a whole number of
blocks, the database fits behind block 0 and no size is out of range. -/
structure Account (z : Sizes) (f : ParentFile) : Prop where
  blob : WholeBlob z.nBlob
  size : f.size = z.nBlob
  database : 0 ≤ z.nDatabase
  room : z.nDatabase + BLOCKSIZE ≤ z.nBlob
  journal : 0 ≤ z.nJournal
  journalLe : z.nJournal ≤ z.nBlob

/-- The same of the sizes alone. -/
structure Sizes.Fits (z : Sizes) : Prop where
  blob : WholeBlob z.nBlob
  database : 0 ≤ z.nDatabase
  room : z.nDatabase + BLOCKSIZE ≤ z.nBlob
  journal : 0 ≤ z.nJournal
  journalLe : z.nJournal ≤ z.nBlob

theorem Account.fits {z : Sizes} {f : ParentFile} (hacc : Account z f) : z.Fits :=
  ⟨hacc.blob, hacc.database, hacc.room, hacc.journal, hacc.journalLe⟩

/-- A blob that was just laid out. -/
theorem Account.fresh {f : ParentFile} (hsize : f.size = 0) :
    Account ⟨0, 0, BLOBSIZE⟩ (f.put (fun _ => 0) (BLOBSIZE - 1) 1) where
  blob := wholeBlob_BLOBSIZE
  size := by simp [ParentFile.put, hsize]
  database := le_refl 0
  room := by decide
  journal := le_refl 0
  journalLe := by decide

/-- The ranges SQLite writes: not empty, and with an end that the sums of the
code can hold. -/
structure WriteArgs (eType : EType) (iAmt iOfst : Int) : Prop where
  ofst : 0 ≤ iOfst
  amt : 0 < iAmt
  last : iAmt + iOfst < if eType = .database then 4611686018427387904 else 2147483648 - 1024

theorem WriteArgs.journalRange {iAmt iOfst : Int} (hargs : WriteArgs .journal iAmt iOfst) :
    JournalRange iOfst iAmt := by
  have hlast : iAmt + iOfst < 2147483648 - 1024 := hargs.last
  exact ⟨hargs.ofst, hargs.amt.le, by omega⟩

theorem Sizes.Fits.databaseLt {z : Sizes} (hfits : z.Fits) :
    z.nDatabase < 2147483648 - 512 := by
  have hlt := hfits.blob.lt
  have hroom := hfits.room
  simp only [BLOCKSIZE] at hroom
  omega

/-! ## Chunk starts -/

/-- Where the last chunk of a range starts. -/
def lastStart (ii iRem : Int) : Int := max ii (BLOCKSIZE * ((ii + iRem - 1) / BLOCKSIZE))

/-- The last chunk is the lowest on the medium. -/
theorem startsAbove_iff {nBlob floor ii iRem : Int} (hpos : 0 < iRem) :
    StartsAbove nBlob floor ii iRem ↔ floor ≤ journalAddr nBlob (lastStart ii iRem) := by
  constructor
  · intro h
    refine h _ (le_max_left _ _) ?_ ?_
    · simp only [lastStart, BLOCKSIZE]
      omega
    · simp only [lastStart, BLOCKSIZE]
      omega
  · intro h j hlo hhi hstart
    refine le_trans h ?_
    simp only [lastStart, journalAddr, reversed, BLOCKSIZE] at *
    omega

theorem StartsAbove.last_le {nBlob floor ii iRem : Int} (hblob : WholeBlob nBlob)
    (hfloor : BLOCKSIZE ≤ floor) (hpos : 0 < iRem)
    (h : StartsAbove nBlob floor ii iRem) : ii + iRem ≤ nBlob := by
  have hlast := (startsAbove_iff hpos).mp h
  have hdvd := hblob.dvd
  simp only [lastStart, journalAddr, reversed, BLOCKSIZE] at *
  omega

section

variable {z : Sizes} {f : ParentFile} {io : Outcomes} {zBuf : Bytes} {iAmt iOfst : Int}

/-! ## Writing -/

/-- Whatever the record says, a write changes at most the size of the region it
is for, and of the database only behind the space check. -/
theorem fsWrite_sizes (eType : EType) (z : Sizes) (f : ParentFile) (io : Outcomes) (zBuf : Bytes)
    (iAmt iOfst : Int) :
    let z' := (fsWrite eType z f io zBuf iAmt iOfst).2.1
    z' = z ∨
      (eType = .database ∧ iAmt + iOfst + BLOCKSIZE ≤ int32 (z.nBlob - z.nJournal) ∧
        z' = { z with nDatabase := int32 (max z.nDatabase (iAmt + iOfst)) }) ∨
      (eType = .journal ∧ z' = { z with nJournal := int32 (max z.nJournal (iAmt + iOfst)) }) := by
  unfold fsWrite
  cases eType with
  | database =>
      simp only [if_true]
      split_ifs with hfull hok
      · exact Or.inl rfl
      · exact Or.inr (Or.inl ⟨trivial, not_lt.mp hfull, rfl⟩)
      · exact Or.inl rfl
  | journal =>
      simp only [reduceCtorEq, if_false]
      split_ifs with hok
      · exact Or.inr (Or.inr ⟨trivial, rfl⟩)
      · exact Or.inl rfl

/-- A database write is refused, or stored behind block 0, or fails in the parent. -/
theorem fsWrite_database_cases (hfits : z.Fits) (f : ParentFile) (io : Outcomes) (zBuf : Bytes)
    (iAmt : Int) (hofst : 0 ≤ iOfst) :
    (z.nBlob - z.nJournal < iOfst + iAmt + BLOCKSIZE ∧
      fsWrite .database z f io zBuf iAmt iOfst = (.full, z, f)) ∨
    (iOfst + iAmt + BLOCKSIZE ≤ z.nBlob - z.nJournal ∧ io 0 = .done ∧
      fsWrite .database z f io zBuf iAmt iOfst =
        (.ok, { z with nDatabase := max z.nDatabase (iOfst + iAmt) },
          f.put zBuf (databaseAddr iOfst) iAmt)) ∨
    (iOfst + iAmt + BLOCKSIZE ≤ z.nBlob - z.nJournal ∧
      ∃ failure, io 0 = .fails failure ∧
      fsWrite .database z f io zBuf iAmt iOfst =
        (failure.rc, z, f.overwrite failure.torn (databaseAddr iOfst) iAmt)) := by
  have hlt := hfits.blob.lt
  have hj := hfits.journal
  have hjLe := hfits.journalLe
  have hd := hfits.database
  have hroom := hfits.room
  have hspace : int32 (z.nBlob - z.nJournal) = z.nBlob - z.nJournal :=
    int32_of_bounds (by omega) (by omega)
  have hsum : iAmt + iOfst + BLOCKSIZE = iOfst + iAmt + BLOCKSIZE := by ring
  unfold fsWrite
  rw [if_pos rfl, hspace, hsum]
  by_cases hfull : iOfst + iAmt + BLOCKSIZE > z.nBlob - z.nJournal
  · exact Or.inl ⟨hfull, by rw [if_pos hfull]⟩
  · refine Or.inr ?_
    rw [if_neg hfull]
    have hfit : iOfst + iAmt + BLOCKSIZE ≤ z.nBlob - z.nJournal := not_lt.mp hfull
    simp only [BLOCKSIZE] at hfit hroom
    cases hio : io 0 with
    | done =>
        have hmax : int32 (max z.nDatabase (iAmt + iOfst)) = max z.nDatabase (iOfst + iAmt) := by
          rw [add_comm iAmt iOfst]
          exact int32_of_bounds (by omega) (by omega)
        refine Or.inl ⟨hfit, rfl, ?_⟩
        have haddr : 0 ≤ iOfst + BLOCKSIZE := by
          simp only [BLOCKSIZE]
          omega
        simp only [ParentFile.xWrite_done haddr, if_true, hmax]
    | fails failure =>
        refine Or.inr ⟨hfit, failure, rfl, ?_⟩
        simp only [ParentFile.xWrite, failure.rc_ne_ok, if_false]

theorem fsWrite_journal_eq (z : Sizes) (f : ParentFile) (io : Outcomes) (zBuf : Bytes)
    (hrange : JournalRange iOfst iAmt) :
    let put := writeChunks z f io zBuf iAmt 0 iOfst
    fsWrite .journal z f io zBuf iAmt iOfst =
      if put.1 = .ok then
        (put.1, { z with nJournal := int32 (max z.nJournal (iAmt + iOfst)) }, put.2)
      else (put.1, z, put.2) := by
  unfold fsWrite
  rw [if_neg (by decide), hrange.start]

/-- A journal write runs the chunk loop, and counts only when all of it is stored. -/
theorem fsWrite_journal_cases (hfits : z.Fits) (f : ParentFile) (io : Outcomes) (zBuf : Bytes)
    (hargs : WriteArgs .journal iAmt iOfst) :
    let put := writeChunks z f io zBuf iAmt 0 iOfst
    ChunksWritten z f zBuf iAmt 0 iOfst put ∧
      ((put.1 = .ok ∧ iOfst + iAmt ≤ z.nBlob ∧
        fsWrite .journal z f io zBuf iAmt iOfst =
          (.ok, { z with nJournal := max z.nJournal (iOfst + iAmt) }, put.2)) ∨
      (put.1 ≠ .ok ∧ fsWrite .journal z f io zBuf iAmt iOfst = (put.1, z, put.2))) := by
  intro put
  have hspec : ChunksWritten z f zBuf iAmt 0 iOfst put :=
    writeChunks_spec hfits.blob hfits.database hfits.databaseLt f io zBuf 0 hargs.journalRange
  have hwrite := fsWrite_journal_eq z f io zBuf hargs.journalRange
  refine ⟨hspec, ?_⟩
  by_cases hok : put.1 = .ok
  · have hend : iOfst + iAmt ≤ z.nBlob := by
      refine StartsAbove.last_le hfits.blob ?_ hargs.amt (hspec.starts hok)
      have hd := hfits.database
      omega
    have hj := hfits.journal
    have hjLe := hfits.journalLe
    have hlt := hfits.blob.lt
    have hmax : int32 (max z.nJournal (iAmt + iOfst)) = max z.nJournal (iOfst + iAmt) := by
      rw [add_comm iAmt iOfst]
      exact int32_of_bounds (by omega) (by omega)
    exact Or.inl ⟨hok, hend, by rw [hwrite, if_pos hok, hmax, hok]⟩
  · exact Or.inr ⟨hok, by rw [hwrite, if_neg hok]⟩

/-- A journal write is refused exactly when its lowest chunk would start inside
the database region, unless a parent write fails before. -/
theorem fsWrite_journal_rc (hfits : z.Fits) (f : ParentFile) (io : Outcomes) (zBuf : Bytes)
    (hargs : WriteArgs .journal iAmt iOfst) :
    let rc := (fsWrite .journal z f io zBuf iAmt iOfst).1
    (rc = .ok ∧ StartsAbove z.nBlob (z.nDatabase + BLOCKSIZE) iOfst iAmt) ∨
      (rc = .full ∧ ¬StartsAbove z.nBlob (z.nDatabase + BLOCKSIZE) iOfst iAmt) ∨
      ∃ k failure, io k = .fails failure ∧ rc = failure.rc := by
  have hrc : (fsWrite .journal z f io zBuf iAmt iOfst).1 =
      (writeChunks z f io zBuf iAmt 0 iOfst).1 := by
    rcases (fsWrite_journal_cases hfits f io zBuf hargs).2 with
      ⟨hok, -, heq⟩ | ⟨-, heq⟩
    · rw [heq, hok]
    · rw [heq]
  rw [hrc]
  exact writeChunks_rc hfits.blob hfits.database hfits.databaseLt f io zBuf 0 hargs.journalRange

theorem Account.write {eType : EType} (hacc : Account z f) (io : Outcomes) (zBuf : Bytes)
    (hargs : WriteArgs eType iAmt iOfst) :
    let out := fsWrite eType z f io zBuf iAmt iOfst
    Account out.2.1 out.2.2 ∧ out.2.1.nBlob = z.nBlob := by
  intro out
  have hj := hacc.journal
  have hofst := hargs.ofst
  have hamt := hargs.amt
  have hd := hacc.database
  have hroom := hacc.room
  cases eType with
  | database =>
      rcases fsWrite_database_cases hacc.fits f io zBuf iAmt hofst with
        ⟨-, heq⟩ | ⟨hfit, -, heq⟩ | ⟨hfit, failure, -, heq⟩
      · simp only [out, heq]
        exact ⟨hacc, trivial⟩
      · simp only [out, heq, and_true]
        refine ⟨hacc.blob, ?_, le_max_of_le_left hd, ?_, hj, hacc.journalLe⟩
        · change max f.size (databaseAddr iOfst + iAmt) = z.nBlob
          simp only [databaseAddr, BLOCKSIZE, hacc.size] at *
          omega
        · simp only [BLOCKSIZE] at *
          omega
      · simp only [out, heq, and_true]
        exact ⟨hacc.blob, hacc.size, hd, hroom, hj, hacc.journalLe⟩
  | journal =>
      obtain ⟨hspec, ⟨hok, hend, heq⟩ | ⟨-, heq⟩⟩ :=
        fsWrite_journal_cases hacc.fits f io zBuf hargs
      · simp only [out, heq, and_true]
        exact ⟨hacc.blob, (hspec.size hacc.size.ge).trans hacc.size, hd, hroom,
          le_max_of_le_left hj, max_le hacc.journalLe hend⟩
      · simp only [out, heq, and_true]
        exact ⟨hacc.blob, (hspec.size hacc.size.ge).trans hacc.size, hd, hroom, hj, hacc.journalLe⟩

/-- No write touches block 0. -/
theorem fsWrite_block0 {eType : EType} (hfits : z.Fits)
    (hargs : WriteArgs eType iAmt iOfst) {x : Int} (hx : x < BLOCKSIZE) :
    (fsWrite eType z f io zBuf iAmt iOfst).2.2.byte x = f.byte x := by
  have hofst := hargs.ofst
  have hd := hfits.database
  cases eType with
  | database =>
      have hbelow : x < databaseAddr iOfst := by
        simp only [databaseAddr, BLOCKSIZE] at *
        omega
      rcases fsWrite_database_cases hfits f io zBuf iAmt hofst with
        ⟨-, heq⟩ | ⟨-, -, heq⟩ | ⟨-, failure, -, heq⟩
      · rw [heq]
      · rw [heq]
        exact ParentFile.put_outside (Or.inl hbelow)
      · rw [heq]
        exact ParentFile.overwrite_outside (Or.inl hbelow)
  | journal =>
      obtain ⟨hspec, ⟨-, -, heq⟩ | ⟨-, heq⟩⟩ :=
        fsWrite_journal_cases hfits f io zBuf hargs
      all_goals
        rw [heq]
        exact hspec.frame x (Or.inl (by omega))

/-! ## Truncating, syncing, deleting -/

theorem fsTruncate_eq {eType : EType} {size : Int} (hacc : Account z f) (hsize : 0 ≤ size) :
    fsTruncate eType z size =
      if eType = .database then { z with nDatabase := min z.nDatabase size }
      else { z with nJournal := min z.nJournal size } := by
  have hd := hacc.database
  have hroom := hacc.room
  have hj := hacc.journal
  have hjLe := hacc.journalLe
  have hlt := hacc.blob.lt
  simp only [BLOCKSIZE] at hroom
  unfold fsTruncate
  rw [int32_of_bounds (by omega) (by omega), int32_of_bounds (by omega) (by omega)]

theorem Account.truncate {size : Int} (hacc : Account z f) (eType : EType) (hsize : 0 ≤ size) :
    Account (fsTruncate eType z size) f ∧ (fsTruncate eType z size).nBlob = z.nBlob := by
  have hd := hacc.database
  have hroom := hacc.room
  have hj := hacc.journal
  have hjLe := hacc.journalLe
  rw [fsTruncate_eq hacc hsize]
  split_ifs
  · exact ⟨⟨hacc.blob, hacc.size, le_min hd hsize, by
      change min z.nDatabase size + BLOCKSIZE ≤ z.nBlob
      omega, hj, hjLe⟩, rfl⟩
  · exact ⟨⟨hacc.blob, hacc.size, hd, hroom, le_min hj hsize,
      le_trans (min_le_left _ _) hjLe⟩, rfl⟩

/-- Only the database handle writes: it puts the size into the first four bytes. -/
theorem fsSync_file {eType : EType} :
    (fsSync eType z f io).2 =
      if eType = .database then (f.xWrite (io 0) (encodeSize z.nDatabase) 4 0).2 else f := by
  unfold fsSync
  split_ifs
  · simp only
    split_ifs
    · rfl
    · rfl
  · rfl

theorem Account.sync {eType : EType} (hacc : Account z f) :
    Account z (fsSync eType z f io).2 := by
  have hsize : (fsSync eType z f io).2.size = f.size := by
    have hd := hacc.database
    have hroom := hacc.room
    have hs := hacc.size
    rw [fsSync_file]
    split_ifs
    · refine ParentFile.xWrite_size ?_
      simp only [BLOCKSIZE] at hroom
      omega
    · rfl
  exact ⟨hacc.blob, hsize.trans hacc.size, hacc.database, hacc.room, hacc.journal,
    hacc.journalLe⟩

/-- A sync changes nothing behind the first four bytes. -/
theorem fsSync_frame {eType : EType} {x : Int} (hx : 4 ≤ x) :
    (fsSync eType z f io).2.byte x = f.byte x := by
  rw [fsSync_file]
  split_ifs
  · exact ParentFile.xWrite_frame (Or.inr (by omega))
  · rfl

theorem deleteReal_sizes (z : Sizes) (f : ParentFile) (io : Outcomes) :
    (deleteReal z f io).2.1 = z ∨ (deleteReal z f io).2.1 = { z with nJournal := 0 } := by
  unfold deleteReal
  simp only
  split_ifs
  · exact Or.inr rfl
  · exact Or.inl rfl

/-- Deleting zeroes four bytes at the start of the last block and forgets the
journal, or fails in the parent. -/
theorem deleteReal_cases (hacc : Account z f) (io : Outcomes) :
    (io 0 = .done ∧ deleteReal z f io =
      (.ok, { z with nJournal := 0 }, f.put (fun _ => 0) (z.nBlob - BLOCKSIZE) 4)) ∨
    (∃ failure, io 0 = .fails failure ∧ deleteReal z f io =
      (failure.rc, z, f.overwrite failure.torn (z.nBlob - BLOCKSIZE) 4)) := by
  have hd := hacc.database
  have hroom := hacc.room
  have hlt := hacc.blob.lt
  simp only [BLOCKSIZE] at hroom
  have haddr : int32 (z.nBlob - BLOCKSIZE) = z.nBlob - BLOCKSIZE :=
    int32_of_bounds (by simp only [BLOCKSIZE]; omega) (by simp only [BLOCKSIZE]; omega)
  have hnonneg : 0 ≤ z.nBlob - BLOCKSIZE := by
    simp only [BLOCKSIZE]
    omega
  unfold deleteReal
  rw [haddr]
  cases hio : io 0 with
  | done =>
      refine Or.inl ⟨rfl, ?_⟩
      simp only [ParentFile.xWrite_done hnonneg, if_true]
  | fails failure =>
      refine Or.inr ⟨failure, rfl, ?_⟩
      simp only [ParentFile.xWrite, failure.rc_ne_ok, if_false]

theorem Account.delete (hacc : Account z f) (io : Outcomes) :
    let out := deleteReal z f io
    Account out.2.1 out.2.2 ∧ out.2.1.nBlob = z.nBlob ∧ out.2.1.nDatabase = z.nDatabase := by
  intro out
  rcases deleteReal_cases hacc io with ⟨-, heq⟩ | ⟨failure, -, heq⟩
  · simp only [out, heq, and_true]
    refine ⟨hacc.blob, ?_, hacc.database, hacc.room, le_refl 0, hacc.blob.nonneg⟩
    change max f.size (z.nBlob - BLOCKSIZE + 4) = z.nBlob
    rw [hacc.size]
    simp only [BLOCKSIZE]
    omega
  · simp only [out, heq, and_true]
    exact ⟨hacc.blob, hacc.size, hacc.database, hacc.room, hacc.journal, hacc.journalLe⟩

/-- Deleting changes at most four bytes of the medium. -/
theorem deleteReal_frame (hacc : Account z f) {x : Int}
    (hx : x < z.nBlob - BLOCKSIZE ∨ z.nBlob - BLOCKSIZE + 4 ≤ x) :
    (deleteReal z f io).2.2.byte x = f.byte x := by
  rcases deleteReal_cases hacc io with ⟨-, heq⟩ | ⟨failure, -, heq⟩
  · rw [heq]
    exact ParentFile.put_outside hx
  · rw [heq]
    exact ParentFile.overwrite_outside hx

end

/-! ## The size in block 0 -/

/-- Masking a byte out of a word and shifting it down. -/
theorem maskByte (w shift : Nat) : (w &&& (255 <<< shift)) >>> shift = w / 2 ^ shift % 256 := by
  rw [Nat.shiftRight_and_distrib, Nat.shiftLeft_shiftRight, Nat.shiftRight_eq_div_pow]
  exact Nat.and_two_pow_sub_one_eq_mod _ 8

/-- A word is put together from its bytes. -/
theorem word_of_bytes {w : Int} (hlo : 0 ≤ w) (hhi : w < 4294967296) :
    w / 16777216 % 256 * 16777216 + w / 65536 % 256 * 65536 + w / 256 % 256 * 256 + w % 256 =
      w := by
  have h0 := Int.mul_ediv_add_emod w 256
  have h1 := Int.mul_ediv_add_emod (w / 256) 256
  have h2 := Int.mul_ediv_add_emod (w / 65536) 256
  rw [Int.ediv_ediv_of_nonneg (by decide)] at h1 h2
  simp only [Int.reduceMul] at h1 h2
  have htop : w / 16777216 % 256 = w / 16777216 :=
    Int.emod_eq_of_lt (Int.ediv_nonneg hlo (by decide)) (Int.ediv_lt_of_lt_mul (by decide) hhi)
  linarith

theorem decodeSize_encodeSize {n : Int} (hlo : 0 ≤ n) (hhi : n < 2147483648) :
    decodeSize (encodeSize n) = n := by
  have hword : n % 4294967296 = n := Int.emod_eq_of_lt hlo (by omega)
  have h0 := maskByte n.toNat 24
  have h1 := maskByte n.toNat 16
  have h2 := maskByte n.toNat 8
  have h3 := maskByte n.toNat 0
  simp only [Nat.reduceShiftLeft, Nat.shiftRight_zero, Nat.reducePow] at h0 h1 h2 h3
  unfold decodeSize encodeSize
  simp [hword, h0, h1, h2, h3, max_eq_left hlo]
  rw [word_of_bytes hlo (by omega), int32_of_bounds (by omega) hhi]

theorem decodeSize_congr {b b' : Bytes} (h : ∀ k, 0 ≤ k → k < 4 → b k = b' k) :
    decodeSize b = decodeSize b' := by
  unfold decodeSize
  rw [h 0 (by decide) (by decide), h 1 (by decide) (by decide), h 2 (by decide) (by decide),
    h 3 (by decide) (by decide)]

theorem decodeSize_overlay (m : Bytes) (b : Bytes) :
    decodeSize (overlay b m 0 4) = decodeSize m :=
  decodeSize_congr fun k hlo hhi => by rw [overlay_inside hlo (by omega), sub_zero]

theorem anySet_congr {b b' : Bytes} (h : ∀ k, 0 ≤ k → k < 4 → b k = b' k) :
    anySet b ↔ anySet b' := by
  unfold anySet
  rw [h 0 (by decide) (by decide), h 1 (by decide) (by decide), h 2 (by decide) (by decide),
    h 3 (by decide) (by decide)]

theorem anySet_overlay (m : Bytes) (b : Bytes) : anySet (overlay b m 0 4) ↔ anySet m :=
  anySet_congr fun k hlo hhi => by rw [overlay_inside hlo (by omega), sub_zero]

/-- What block 0 of a blob says about the size of the database. -/
def headerSize (f : ParentFile) : Int := decodeSize f.byte

/-- Some of the last four bytes of a blob is set, which `fsOpen` takes for a journal. -/
def tailSet (f : ParentFile) : Prop := anySet fun k => f.byte (f.size - 4 + k)

instance (f : ParentFile) : Decidable (tailSet f) := by
  unfold tailSet
  infer_instance

/-- The sizes that `fsOpen` takes from an existing blob. -/
def recovered (f : ParentFile) : Sizes :=
  ⟨headerSize f, if tailSet f then f.size else 0, f.size⟩

/-- Reading the sizes succeeds with what the blob says, or fails. -/
theorem readSizes_cases (f : ParentFile) (io : Outcomes) (hsize : 4 ≤ f.size)
    (hlt : f.size < 2147483648) :
    readSizes f f.size io = (.ok, recovered f) ∨ (readSizes f f.size io).1 ≠ .ok := by
  have hblob : int32 f.size = f.size := int32_of_bounds (by omega) hlt
  have htail : int32 (f.size - 4) = f.size - 4 := int32_of_bounds (by omega) (by omega)
  unfold readSizes
  cases h0 : io 0 with
  | fails failure =>
      have hrc := failure.rc_ne_ok
      refine Or.inr ?_
      simpa only [ParentFile.xRead, hrc, if_false] using hrc
  | done =>
      rw [ParentFile.xRead_inside (le_refl 0) (by omega)]
      simp only [zero_add, if_true, decodeSize_overlay, hblob, htail]
      cases h1 : io 1 with
      | fails failure => exact Or.inr failure.rc_ne_ok
      | done =>
          refine Or.inl ?_
          rw [ParentFile.xRead_inside (by omega) (by omega)]
          simp only [anySet_overlay]
          by_cases hset : anySet fun k => f.byte (f.size - 4 + k)
          · simp only [recovered, headerSize, tailSet, hset, if_true]
          · simp only [recovered, headerSize, tailSet, hset, if_false]

/-- Opening a file: a new blob is laid out, an old one is read, or the open
fails and leaves at most the byte that would have laid out a new blob. -/
theorem openReal_cases (f : ParentFile) (io : Outcomes) (hsize : f.size = 0 ∨ 4 ≤ f.size)
    (hlt : f.size < 2147483648) :
    (f.size = 0 ∧ openReal f io =
      (.ok, ⟨0, 0, BLOBSIZE⟩, f.put (fun _ => 0) (BLOBSIZE - 1) 1)) ∨
    (f.size ≠ 0 ∧ openReal f io = (.ok, recovered f, f)) ∨
    ((openReal f io).1 ≠ .ok ∧ (openReal f io).2.2.size = f.size ∧
      ∀ x, x ≠ BLOBSIZE - 1 → (openReal f io).2.2.byte x = f.byte x) := by
  unfold openReal
  by_cases h0 : (io 0).rc ≠ .ok
  · rw [if_pos h0]
    exact Or.inr (Or.inr ⟨h0, rfl, fun _ _ => rfl⟩)
  rw [if_neg h0]
  by_cases h1 : (f.xFileSize (io 1)).1 ≠ .ok
  · simp only [if_pos h1]
    exact Or.inr (Or.inr ⟨h1, trivial, fun _ _ => trivial⟩)
  simp only [if_neg h1]
  by_cases hzero : (f.xFileSize (io 1)).2 = 0
  · rw [if_pos hzero]
    cases h2 : io 2 with
    | done =>
        rw [ParentFile.xWrite_done (by decide)]
        exact Or.inl ⟨hzero, rfl⟩
    | fails failure =>
        refine Or.inr (Or.inr ⟨failure.rc_ne_ok, rfl, ?_⟩)
        intro x hx
        exact ParentFile.overwrite_outside (by omega)
  · rw [if_neg hzero]
    have hne : f.size ≠ 0 := hzero
    rcases readSizes_cases _ (fun n => io (n + 2)) (hsize.resolve_left hne) hlt with
      heq | hrc
    · refine Or.inr (Or.inl ⟨hne, ?_⟩)
      simp only [ParentFile.xFileSize, heq]
    · exact Or.inr (Or.inr ⟨hrc, rfl, fun _ _ => rfl⟩)

end SqliteFs
