import SqliteFs.Medium

/-!
`fs_real_file` and the file methods of the VFS (test_onefile.c), each as the C
code computes it from the record and the parent file. The blob is one parent
file: block 0 holds the database size, the database follows it and grows
upwards, the journal is stored block by block from the end downwards.
-/

namespace SqliteFs

abbrev BLOCKSIZE : Int := 512
abbrev BLOBSIZE : Int := 10485760

/-- Values for `fs_file.eType`. -/
inductive EType where
  | database
  | journal
  deriving DecidableEq, Repr

/-- A path name, without the terminating NUL. -/
abbrev Name := List UInt8

/-- The three sizes that `fs_real_file` keeps: the current size of the
database region and of the journal region, and the size of the blob. -/
structure Sizes where
  nDatabase : Int
  nJournal : Int
  nBlob : Int
  deriving DecidableEq, Repr

/-- `fs_real_file`. Its `pFile` is the parent's file of the name `zName`. -/
structure FsRealFile extends Sizes where
  zName : Name
  nRef : Int
  deriving DecidableEq, Repr

/-- `iRealOff` of the chunk loops: where journal offset `ii` is on the medium.
`/` and `%` of C round towards zero. -/
def realOff (nBlob ii : Int) : Int :=
  int32 (nBlob - BLOCKSIZE * (ii.tdiv BLOCKSIZE + 1) + ii.tmod BLOCKSIZE)

/-- `iRealAmt` of the chunk loops: up to the end of the block. -/
def realAmt (iRem iRealOff : Int) : Int := min iRem (BLOCKSIZE - iRealOff.tmod BLOCKSIZE)

theorem realAmt_pos {iRem : Int} (h : 0 < iRem) (iRealOff : Int) :
    0 < realAmt iRem iRealOff := by
  have hmod := Int.tmod_lt_of_pos iRealOff (show (0 : Int) < BLOCKSIZE by decide)
  unfold realAmt
  omega

theorem realAmt_le (iRem iRealOff : Int) : realAmt iRem iRealOff ≤ iRem := min_le_left _ _

/-- The loop of `fsRead` over the blocks of a journal range. -/
def readChunks (nBlob : Int) (pF : ParentFile) (io : Outcomes) (zBuf : Bytes)
    (iRem iBuf ii : Int) : Rc × Bytes :=
  if 0 < iRem then
    let iRealOff := realOff nBlob ii
    let iRealAmt := realAmt iRem iRealOff
    let got := pF.xRead (io 0) (fun k => zBuf (iBuf + k)) iRealAmt iRealOff
    let zBuf' : Bytes := fun k => got.2 (k - iBuf)
    if got.1 = .ok then
      readChunks nBlob pF (fun n => io (n + 1)) zBuf' (iRem - iRealAmt)
        (iBuf + iRealAmt) (int32 (ii + iRealAmt))
    else (got.1, zBuf')
  else (.ok, zBuf)
termination_by iRem.toNat
decreasing_by
  have := realAmt_pos (by assumption) (realOff nBlob ii)
  omega

/-- Read data from an fs-file. -/
def fsRead (eType : EType) (pReal : Sizes) (pF : ParentFile) (io : Outcomes)
    (zBuf : Bytes) (iAmt iOfst : Int) : Rc × Bytes :=
  if (eType = .database ∧ iAmt + iOfst > pReal.nDatabase) ∨
      (eType = .journal ∧ iAmt + iOfst > pReal.nJournal) then
    (.ioerrShortRead, zBuf)
  else if eType = .database then pF.xRead (io 0) zBuf iAmt (iOfst + BLOCKSIZE)
  else readChunks pReal.nBlob pF io zBuf iAmt 0 (int32 iOfst)

/-- The loop of `fsWrite` over the blocks of a journal range. A chunk that
would start inside the database region ends it with `SQLITE_FULL`. -/
def writeChunks (pReal : Sizes) (pF : ParentFile) (io : Outcomes) (zBuf : Bytes)
    (iRem iBuf ii : Int) : Rc × ParentFile :=
  if 0 < iRem then
    let iRealOff := realOff pReal.nBlob ii
    let iRealAmt := realAmt iRem iRealOff
    if iRealOff < int32 (pReal.nDatabase + BLOCKSIZE) then (.full, pF)
    else
      let put := pF.xWrite (io 0) (fun k => zBuf (iBuf + k)) iRealAmt iRealOff
      if put.1 = .ok then
        writeChunks pReal put.2 (fun n => io (n + 1)) zBuf (iRem - iRealAmt)
          (iBuf + iRealAmt) (int32 (ii + iRealAmt))
      else put
  else (.ok, pF)
termination_by iRem.toNat
decreasing_by
  have := realAmt_pos (by assumption) (realOff pReal.nBlob ii)
  omega

/-- Write data to an fs-file. The sums with `iOfst` are of 64 bits. -/
def fsWrite (eType : EType) (pReal : Sizes) (pF : ParentFile) (io : Outcomes)
    (zBuf : Bytes) (iAmt iOfst : Int) : Rc × Sizes × ParentFile :=
  if eType = .database then
    if iAmt + iOfst + BLOCKSIZE > int32 (pReal.nBlob - pReal.nJournal) then
      (.full, pReal, pF)
    else
      let put := pF.xWrite (io 0) zBuf iAmt (iOfst + BLOCKSIZE)
      if put.1 = .ok then
        (put.1, { pReal with nDatabase := int32 (max pReal.nDatabase (iAmt + iOfst)) }, put.2)
      else (put.1, pReal, put.2)
  else
    let put := writeChunks pReal pF io zBuf iAmt 0 (int32 iOfst)
    if put.1 = .ok then
      (put.1, { pReal with nJournal := int32 (max pReal.nJournal (iAmt + iOfst)) }, put.2)
    else (put.1, pReal, put.2)

/-- Truncate an fs-file. -/
def fsTruncate (eType : EType) (pReal : Sizes) (size : Int) : Sizes :=
  if eType = .database then
    { pReal with nDatabase := int32 (min pReal.nDatabase size) }
  else { pReal with nJournal := int32 (min pReal.nJournal size) }

/-- The four bytes of `zSize`, most significant first: each is masked out of
the 32 bits of `nDatabase` and shifted down. -/
def encodeSize (nDatabase : Int) : Bytes :=
  let w : Nat := (nDatabase % 4294967296).toNat
  fun k =>
    if k = 0 then UInt8.ofNat ((w &&& 0xFF000000) >>> 24)
    else if k = 1 then UInt8.ofNat ((w &&& 0x00FF0000) >>> 16)
    else if k = 2 then UInt8.ofNat ((w &&& 0x0000FF00) >>> 8)
    else UInt8.ofNat (w &&& 0x000000FF)

/-- `(zS[0] << 24) + (zS[1] << 16) + (zS[2] << 8) + zS[3]` -/
def decodeSize (zS : Bytes) : Int :=
  int32 ((zS 0).toNat * 16777216 + (zS 1).toNat * 65536 + (zS 2).toNat * 256 + (zS 3).toNat)

/-- Sync an fs-file: the database handle writes the size into block 0 first. -/
def fsSync (eType : EType) (pReal : Sizes) (pF : ParentFile) (io : Outcomes) :
    Rc × ParentFile :=
  if eType = .database then
    let put := pF.xWrite (io 0) (encodeSize pReal.nDatabase) 4 0
    if put.1 = .ok then ((io 1).rc, put.2) else put
  else ((io 0).rc, pF)

/-- The current file-size of an fs-file. -/
def fsFileSize (eType : EType) (pReal : Sizes) : Int :=
  if eType = .database then pReal.nDatabase else pReal.nJournal

/-- Some byte of `zS[0]` to `zS[3]` is set. -/
def anySet (zS : Bytes) : Prop := zS 0 ≠ 0 ∨ zS 1 ≠ 0 ∨ zS 2 ≠ 0 ∨ zS 3 ≠ 0

instance (zS : Bytes) : Decidable (anySet zS) := by
  unfold anySet
  infer_instance

/-- What `fsOpen` reads from an existing blob of `size` bytes: the database
size from block 0, and whether the last four bytes tell of a journal. -/
def readSizes (pF : ParentFile) (size : Int) (io : Outcomes) : Rc × Sizes :=
  let nBlob := int32 size
  let header := pF.xRead (io 0) (fun _ => 0) 4 0
  let pReal : Sizes := ⟨decodeSize header.2, 0, nBlob⟩
  if header.1 = .ok then
    let tail := pF.xRead (io 1) header.2 4 (int32 (nBlob - 4))
    (tail.1, if anySet tail.2 then { pReal with nJournal := nBlob } else pReal)
  else (header.1, pReal)

/-- What `fsOpen` does once the record is allocated and cleared: open the
parent file, lay out a new blob or read the sizes of an old one. -/
def openReal (pF : ParentFile) (io : Outcomes) : Rc × Sizes × ParentFile :=
  if (io 0).rc ≠ .ok then ((io 0).rc, ⟨0, 0, 0⟩, pF)
  else
    let size := pF.xFileSize (io 1)
    if size.1 ≠ .ok then (size.1, ⟨0, 0, 0⟩, pF)
    else if size.2 = 0 then
      let put := pF.xWrite (io 2) (fun _ => 0) 1 (BLOBSIZE - 1)
      (put.1, ⟨0, 0, BLOBSIZE⟩, put.2)
    else
      let sizes := readSizes pF size.2 fun n => io (n + 2)
      (sizes.1, sizes.2, pF)

/-- What `fsDelete` does to the record it finds. -/
def deleteReal (pReal : Sizes) (pF : ParentFile) (io : Outcomes) : Rc × Sizes × ParentFile :=
  let put := pF.xWrite (io 0) (fun _ => 0) 4 (int32 (pReal.nBlob - BLOCKSIZE))
  if put.1 = .ok then (put.1, { pReal with nJournal := 0 }, put.2)
  else (put.1, pReal, put.2)

end SqliteFs
