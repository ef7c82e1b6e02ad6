import SqliteFs.Persistence
import SqliteFs.Device

/-!
The open and read sides of the registered VFS table, `fs_open` and `fs_read`,
which go to the raw drive with records of their own. `fs_read` and the other
methods take such a record for an `fs_real_file`, field by field. `fs_open`
does not set the backing file of the record, and it makes one record for every
handle, so the two handles of a database do not share their account.
-/

namespace SqliteFs

open Lib

/-- `sqvfs_rfile_t`. `sqlFile` is the address of the backing file, if it is set. -/
structure SqvfsRfile where
  sqlFile : Option Nat
  name : Name
  szDatabase : Int
  szJournal : Int
  szBlob : Int
  szRef : Int
  deriving DecidableEq

/-- The record read as an `fs_real_file`. -/
def SqvfsRfile.asReal (r : SqvfsRfile) : FsRealFile :=
  ⟨⟨r.szDatabase, r.szJournal, r.szBlob⟩, r.name, r.szRef⟩

def SqvfsRfile.setSizes (r : SqvfsRfile) (z : Sizes) : SqvfsRfile :=
  { r with szDatabase := z.nDatabase, szJournal := z.nJournal, szBlob := z.nBlob }

/-- `mfs_sqlite_vfs_t`. No two handles have the same `real_file`. -/
structure MfsSqliteVfs where
  pMethods : Bool
  fd : Int
  etype : EType
  realFile : Option SqvfsRfile
  deriving DecidableEq

/-- A drive that records no size is given its last byte. -/
def formatDrive (d : Drive) (fd szDatabase : Int) (io : Transfer) : Rc × Drive :=
  if szDatabase = 0 then d.xwrite fd io (fun _ => 0) 1 (BLOBSIZE - 1) else (.ok, d)

/-- The last four bytes of the blob tell of a journal. -/
def readTail (d : Drive) (real_file : SqvfsRfile) (fd : Int) (zs : Bytes) (io : Transfer) :
    Rc × SqvfsRfile × Drive :=
  let tail := d.xread fd io zs 4 (real_file.szBlob - 4)
  if tail.1 ≠ .ok then (tail.1, real_file, tail.2.2)
  else if anySet tail.2.1 then
    (.ok, { real_file with szJournal := real_file.szBlob }, tail.2.2)
  else (.ok, real_file, tail.2.2)

/-- What `fs_open` does with the record once the drive is open. -/
def readRecord (d : Drive) (zName : Name) (fd : Int) (io : Nat → Transfer) :
    Rc × SqvfsRfile × Drive :=
  let real_file : SqvfsRfile := ⟨none, zName, 0, 0, BLOBSIZE, 0⟩
  let header := d.xread fd (io 0) (fun _ => 0) 512 0
  if header.1 ≠ .ok then (header.1, real_file, header.2.2)
  else
    let real_file := { real_file with szDatabase := decodeSize header.2.1 }
    let put := formatDrive header.2.2 fd real_file.szDatabase (io 1)
    if put.1 ≠ .ok then (put.1, real_file, put.2)
    else readTail put.2 real_file fd header.2.1 (io 2)

/-- Open a file of the registered table on the drive. `handle` is what `xopen`
returns. -/
def fs_open (p : MfsSqliteVfs) (d : Drive) (zName : Name) (flags : Nat) (malloc : Bool)
    (handle : Int) (io : Nat → Transfer) : Rc × MfsSqliteVfs × Drive :=
  let p := { p with etype := openType flags, pMethods := true }
  if malloc = false then (.nomem, p, d)
  else
    let p := { p with fd := handle }
    if handle < 0 then (.error, p, d)
    else
      let out := readRecord d zName handle io
      (out.1, { p with realFile := some out.2.1 }, out.2.2)

/-- Read from a file of the registered table. `file` is what is at the address
of a backing file. `none` is an access through a pointer that is not set. -/
def fs_read (p : MfsSqliteVfs) (file : Nat → ParentFile) (io : Outcomes) (zBuf : Bytes)
    (iAmt iOfst : Int) : Option (Rc × Bytes) :=
  p.realFile.bind fun real_file =>
    let pReal := real_file.asReal
    if (p.etype = .database ∧ iAmt + iOfst > pReal.nDatabase) ∨
        (p.etype = .journal ∧ iAmt + iOfst > pReal.nJournal) then
      some (.ioerrShortRead, zBuf)
    else if p.etype = .database then
      real_file.sqlFile.map fun a => (file a).xRead (io 0) zBuf iAmt (iOfst + BLOCKSIZE)
    else if 0 < iAmt then
      real_file.sqlFile.map fun a =>
        readChunks pReal.nBlob (file a) io zBuf iAmt 0 (int32 iOfst)
    else some (.ok, zBuf)

/-! ## What an open finds -/

/-- A byte of the blob after `fs_open` has formatted a drive that records no size. -/
def formatted (f : ParentFile) (x : Int) : UInt8 :=
  if headerSize f = 0 ∧ x = BLOBSIZE - 1 then 0 else f.byte x

/-- The size that `fs_open` records for a file of this type. -/
def recordedSize (f : ParentFile) : EType → Int
  | .database => headerSize f
  | .journal => if anySet fun k => formatted f (BLOBSIZE - 4 + k) then BLOBSIZE else 0

/-- The account that `fs_open` starts a record with. -/
def recordedSizes (f : ParentFile) : Sizes :=
  ⟨recordedSize f .database, recordedSize f .journal, BLOBSIZE⟩

theorem formatted_of_headerSize {f : ParentFile} (h : headerSize f ≠ 0) (x : Int) :
    formatted f x = f.byte x :=
  if_neg fun hcond => h hcond.1

/-- The formatting write puts a zero at the end of the blob. -/
theorem formatted_overwrite {f : ParentFile} {n : Int} (hheader : headerSize f = 0) (hn : 1 ≤ n)
    {x : Int} (hx : x < BLOBSIZE) :
    (f.overwrite (fun _ => 0) (BLOBSIZE - 1) n).byte x = formatted f x := by
  by_cases hlast : x = BLOBSIZE - 1
  · simp only [formatted, hheader, hlast, and_self, if_true, ParentFile.overwrite]
    split_ifs with hin
    · exact overlay_inside (by omega) (by omega)
    · exact f.zero_past _ (not_lt.mp hin)
  · simp only [formatted, hlast, and_false, if_false]
    exact ParentFile.overwrite_outside (by omega)

theorem formatDrive_ok {d : Drive} {fd : Int} {io : Transfer} (hlast : d.lastOffset = 0)
    (hok : (formatDrive d fd (headerSize d.file) io).1 = .ok) :
    (∀ x, x < BLOBSIZE →
        (formatDrive d fd (headerSize d.file) io).2.file.byte x = formatted d.file x) ∧
      (formatDrive d fd (headerSize d.file) io).2.file.size = d.file.size := by
  by_cases hheader : headerSize d.file = 0
  · have hput : formatDrive d fd (headerSize d.file) io =
        d.xwrite fd io (fun _ => 0) 1 (BLOBSIZE - 1) := if_pos hheader
    rw [hput] at hok ⊢
    obtain ⟨hfile, hn⟩ := Drive.xwrite_ok (d := d) (by decide) (by decide) (by decide) (by decide)
      (by rw [hlast]; decide) hok
    rw [hfile]
    constructor
    · intro x hx
      exact formatted_overwrite hheader hn hx
    · rfl
  · have hput : formatDrive d fd (headerSize d.file) io = (.ok, d) := if_neg hheader
    rw [hput]
    constructor
    · intro x _
      exact (formatted_of_headerSize hheader x).symm
    · rfl

theorem readTail_ok {d : Drive} {real_file : SqvfsRfile} {fd : Int} {zs : Bytes} {io : Transfer}
    (hblob : real_file.szBlob = BLOBSIZE) (hok : (readTail d real_file fd zs io).1 = .ok) :
    (readTail d real_file fd zs io).2.1 = { real_file with
      szJournal := if anySet fun k => d.file.byte (BLOBSIZE - 4 + k) then BLOBSIZE
        else real_file.szJournal } ∧
      (readTail d real_file fd zs io).2.2.file = d.file := by
  have hread : (d.xread fd io zs 4 (real_file.szBlob - 4)).1 = .ok := by
    by_contra hread
    unfold readTail at hok
    rw [if_pos hread] at hok
    exact hread hok
  have hfile : (d.xread fd io zs 4 (real_file.szBlob - 4)).2.2.file = d.file :=
    (d.xread_drive fd io zs 4 (by rw [hblob]; decide) (by rw [hblob]; decide)).1
  have hset : anySet (d.xread fd io zs 4 (real_file.szBlob - 4)).2.1 ↔
      anySet fun k => d.file.byte (BLOBSIZE - 4 + k) := by
    apply anySet_congr
    intro k hlo hhi
    rw [Drive.xread_ok (by rw [hblob]; decide) (by rw [hblob]; decide) (by decide) (by decide)
      hread hlo hhi, hblob]
  have htail : readTail d real_file fd zs io = (.ok, { real_file with
      szJournal := if anySet fun k => d.file.byte (BLOBSIZE - 4 + k) then BLOBSIZE
        else real_file.szJournal }, (d.xread fd io zs 4 (real_file.szBlob - 4)).2.2) := by
    unfold readTail
    rw [if_neg (not_not_intro hread)]
    split_ifs with hgot hjournal hjournal
    · rw [hblob]
    · exact absurd (hset.mp hgot) hjournal
    · exact absurd (hset.mpr hjournal) hgot
    · rfl
  rw [htail]
  exact ⟨rfl, hfile⟩

theorem readRecord_eq (zName : Name) {d : Drive} {fd : Int} {io : Nat → Transfer}
    {header : Rc × Bytes × Drive} {put : Rc × Drive}
    (hheader : header = d.xread fd (io 0) (fun _ => 0) 512 0) (hread : header.1 = .ok)
    (hput : put = formatDrive header.2.2 fd (decodeSize header.2.1) (io 1)) :
    readRecord d zName fd io =
      if put.1 ≠ .ok then (put.1, ⟨none, zName, decodeSize header.2.1, 0, BLOBSIZE, 0⟩, put.2)
      else readTail put.2 ⟨none, zName, decodeSize header.2.1, 0, BLOBSIZE, 0⟩ fd
        header.2.1 (io 2) := by
  unfold readRecord
  rw [← hheader, if_neg (not_not_intro hread), hput]

/-- The transfers of an open that succeeds. -/
theorem readRecord_transfers {d : Drive} {zName : Name} {fd : Int} {io : Nat → Transfer}
    (hok : (readRecord d zName fd io).1 = .ok) :
    ∃ header put, header = d.xread fd (io 0) (fun _ => 0) 512 0 ∧ header.1 = .ok ∧
      put = formatDrive header.2.2 fd (decodeSize header.2.1) (io 1) ∧ put.1 = .ok ∧
      readRecord d zName fd io = readTail put.2
        ⟨none, zName, decodeSize header.2.1, 0, BLOBSIZE, 0⟩ fd header.2.1 (io 2) := by
  obtain ⟨header, hheader⟩ : ∃ header, header = d.xread fd (io 0) (fun _ => 0) 512 0 := ⟨_, rfl⟩
  obtain ⟨put, hput⟩ : ∃ put, put = formatDrive header.2.2 fd (decodeSize header.2.1) (io 1) :=
    ⟨_, rfl⟩
  have hread : header.1 = .ok := by
    by_contra hread
    unfold readRecord at hok
    rw [← hheader, if_pos hread] at hok
    exact hread hok
  have hrest := readRecord_eq zName hheader hread hput
  have hformat : put.1 = .ok := by
    by_contra hformat
    rw [hrest, if_pos hformat] at hok
    exact hformat hok
  refine ⟨header, put, hheader, hread, hput, hformat, ?_⟩
  rw [hrest, if_neg (not_not_intro hformat)]

/-- What a successful open records: the sizes the drive tells of, and no
backing file. It changes at most the last byte of the blob. -/
theorem readRecord_ok {d : Drive} {zName : Name} {fd : Int} {io : Nat → Transfer}
    (hok : (readRecord d zName fd io).1 = .ok) :
    (readRecord d zName fd io).2.1 = ⟨none, zName, recordedSize d.file .database,
        recordedSize d.file .journal, BLOBSIZE, 0⟩ ∧
      (∀ x, x < BLOBSIZE → (readRecord d zName fd io).2.2.file.byte x = formatted d.file x) ∧
      (readRecord d zName fd io).2.2.file.size = d.file.size := by
  obtain ⟨header, put, hheader, hread, hput, hformat, hrest⟩ := readRecord_transfers hok
  obtain ⟨hfile, hlast⟩ := d.xread_drive fd (io 0) (fun _ => 0) 512 (le_refl 0) (by decide)
  rw [← hheader] at hfile hlast
  have hdecode : decodeSize header.2.1 = headerSize header.2.2.file := by
    apply decodeSize_congr
    intro k hlo hhi
    rw [hfile, hheader, Drive.xread_ok (le_refl 0) (by decide) (by decide) (by decide)
      (by rw [← hheader, hread]) hlo (by omega), zero_add]
  rw [hdecode] at hput hrest
  obtain ⟨hbytes, hsize⟩ := formatDrive_ok hlast (by rw [← hput, hformat])
  rw [← hput, hfile] at hbytes hsize
  rw [hfile] at hrest
  rw [hrest] at hok ⊢
  obtain ⟨hrecord, htail⟩ := readTail_ok rfl hok
  have hset : (anySet fun k => put.2.file.byte (BLOBSIZE - 4 + k)) ↔
      anySet fun k => formatted d.file (BLOBSIZE - 4 + k) := by
    apply anySet_congr
    intro k _ hhi
    exact hbytes _ (by omega)
  rw [hrecord, htail]
  refine ⟨?_, hbytes, hsize⟩
  simp only [hset, recordedSize]

/-! ## What the handle of an open can read -/

variable {p : MfsSqliteVfs} {d : Drive} {zName : Name} {flags : Nat} {malloc : Bool}
  {handle : Int} {io : Nat → Transfer}

/-- The record that a successful open leaves in the handle. -/
theorem fs_open_ok (hok : (fs_open p d zName flags malloc handle io).1 = .ok) :
    (fs_open p d zName flags malloc handle io).2.1 =
        ⟨true, handle, openType flags, some ⟨none, zName, recordedSize d.file .database,
          recordedSize d.file .journal, BLOBSIZE, 0⟩⟩ ∧
      (∀ x, x < BLOBSIZE →
        (fs_open p d zName flags malloc handle io).2.2.file.byte x = formatted d.file x) ∧
      (fs_open p d zName flags malloc handle io).2.2.file.size = d.file.size := by
  by_cases hmalloc : malloc = false
  · simp only [fs_open, hmalloc, if_true] at hok
    cases hok
  by_cases hhandle : handle < 0
  · have hopen : (fs_open p d zName flags malloc handle io).1 = .error := by
      unfold fs_open
      rw [if_neg hmalloc, if_pos hhandle]
    rw [hopen] at hok
    cases hok
  have hopen : fs_open p d zName flags malloc handle io =
      ((readRecord d zName handle io).1, ⟨true, handle, openType flags,
        some (readRecord d zName handle io).2.1⟩, (readRecord d zName handle io).2.2) := by
    unfold fs_open
    rw [if_neg hmalloc, if_neg hhandle]
  rw [hopen] at hok ⊢
  obtain ⟨hrecord, hkept⟩ := readRecord_ok hok
  rw [hrecord]
  exact ⟨rfl, hkept⟩

theorem formatDrive_ideal {fd n : Int} {t : Transfer} (ht : t.Ideal) :
    (formatDrive d fd n t).1 = .ok := by
  unfold formatDrive
  split_ifs
  · exact Drive.xwrite_ideal ht (by simp only [uint32, BLOBSIZE]; omega)
  · rfl

theorem readTail_ideal {real_file : SqvfsRfile} {fd : Int} {zs : Bytes} {t : Transfer}
    (ht : t.Ideal) : (readTail d real_file fd zs t).1 = .ok := by
  unfold readTail
  rw [if_neg (not_not_intro (Drive.xread_ideal ht))]
  split_ifs
  · rfl
  · rfl

theorem readRecord_ideal {fd : Int} (hio : ∀ n, (io n).Ideal) :
    (readRecord d zName fd io).1 = .ok := by
  obtain ⟨header, hheader⟩ : ∃ header, header = d.xread fd (io 0) (fun _ => 0) 512 0 := ⟨_, rfl⟩
  obtain ⟨put, hput⟩ : ∃ put, put = formatDrive header.2.2 fd (decodeSize header.2.1) (io 1) :=
    ⟨_, rfl⟩
  have hread : header.1 = .ok := by
    rw [hheader]
    exact Drive.xread_ideal (hio 0)
  have hformat : put.1 = .ok := by
    rw [hput]
    exact formatDrive_ideal (hio 1)
  rw [readRecord_eq zName hheader hread hput, if_neg (not_not_intro hformat)]
  exact readTail_ideal (hio 2)

/-- With memory, a handle and a device that transfers everything, every open succeeds. -/
theorem fs_open_ideal (hmalloc : malloc = true) (hhandle : 0 ≤ handle) (hio : ∀ n, (io n).Ideal) :
    (fs_open p d zName flags malloc handle io).1 = .ok := by
  unfold fs_open
  rw [if_neg (by simp only [hmalloc, reduceCtorEq, not_false_eq_true]),
    if_neg (not_lt.mpr hhandle)]
  exact readRecord_ideal hio

/-- The drive tells of no content: the header decodes to no size, or the last
four bytes of the blob, once it is formatted, are zero. -/
def RecordsNothing (f : ParentFile) : EType → Prop
  | .database => headerSize f ≤ 0
  | .journal => ¬anySet fun k => formatted f (BLOBSIZE - 4 + k)

instance (f : ParentFile) : ∀ eType, Decidable (RecordsNothing f eType)
  | .database => inferInstanceAs (Decidable (headerSize f ≤ 0))
  | .journal => inferInstanceAs (Decidable ¬anySet fun k => formatted f (BLOBSIZE - 4 + k))

theorem recordedSize_nonpos_iff {f : ParentFile} {eType : EType} :
    recordedSize f eType ≤ 0 ↔ RecordsNothing f eType := by
  cases eType with
  | database => exact Iff.rfl
  | journal =>
      simp only [recordedSize, RecordsNothing]
      split_ifs with hset
      · simp only [hset, not_true_eq_false, iff_false]
        decide
      · simp only [hset, not_false_eq_true, le_refl]

/-- Every read inside the recorded size reaches a backing file that is set and
returns what the drive holds there, the backing file being the drive. -/
def Readable (p : MfsSqliteVfs) (d : Drive) : Prop :=
  ∃ real_file, p.realFile = some real_file ∧
    ∀ io zBuf iAmt iOfst, Outcomes.Ideal io → 0 ≤ iOfst → 0 < iAmt →
      iOfst + iAmt ≤ fsFileSize p.etype real_file.asReal.toSizes →
      ∃ got, fs_read p (fun _ => d.file) io zBuf iAmt iOfst = some (.ok, got) ∧
        ∀ k, 0 ≤ k → k < iAmt →
          got k = d.file.byte (p.etype.addr real_file.szBlob (iOfst + k))

/-- `fs_read` goes through the backing file whenever the range is recorded and
not empty. -/
theorem fs_read_unset {p : MfsSqliteVfs} {real_file : SqvfsRfile} {file : Nat → ParentFile}
    {io : Outcomes} {zBuf : Bytes} {iAmt iOfst : Int} (hreal : p.realFile = some real_file)
    (hunset : real_file.sqlFile = none) (hpos : 0 < iAmt)
    (hend : iOfst + iAmt ≤ fsFileSize p.etype real_file.asReal.toSizes) :
    fs_read p file io zBuf iAmt iOfst = none := by
  have hend' : iAmt + iOfst ≤ fsFileSize p.etype real_file.asReal.toSizes := by omega
  unfold fs_read
  rw [hreal, Option.bind_some]
  cases htype : p.etype with
  | database =>
      rw [htype] at hend'
      change iAmt + iOfst ≤ real_file.asReal.nDatabase at hend'
      rw [if_neg (by simp [hend']), if_pos rfl, hunset, Option.map_none]
  | journal =>
      rw [htype] at hend'
      change iAmt + iOfst ≤ real_file.asReal.nJournal at hend'
      rw [if_neg (by simp [hend']), if_neg (by decide), if_pos hpos, hunset, Option.map_none]

/-- The handle of a successful open can be read exactly when the drive tells
of no content, since then there is nothing to read. -/
theorem opened_readable_iff (hok : (fs_open p d zName flags malloc handle io).1 = .ok) :
    Readable (fs_open p d zName flags malloc handle io).2.1
        (fs_open p d zName flags malloc handle io).2.2 ↔
      RecordsNothing d.file (openType flags) := by
  obtain ⟨hhandle, -, -⟩ := fs_open_ok hok
  rw [hhandle, ← recordedSize_nonpos_iff]
  have hrecorded : fsFileSize (openType flags)
      ⟨recordedSize d.file .database, recordedSize d.file .journal, BLOBSIZE⟩ =
        recordedSize d.file (openType flags) := by
    cases openType flags with
    | database => simp only [fsFileSize, if_true]
    | journal => simp only [fsFileSize, reduceCtorEq, if_false]
  constructor
  · rintro ⟨real_file, hreal, hread⟩
    cases hreal
    by_contra hsome
    obtain ⟨got, hgot, -⟩ := hread carriedOut (fun _ => 0) 1 0 carriedOut_ideal (le_refl 0)
      (by decide) (by
        simp only [SqvfsRfile.asReal]
        omega)
    rw [fs_read_unset rfl rfl (by decide) (by
      simp only [SqvfsRfile.asReal]
      omega)] at hgot
    cases hgot
  · intro hnone
    refine ⟨_, rfl, ?_⟩
    intro io' zBuf iAmt iOfst _ hofst hpos hend
    simp only [SqvfsRfile.asReal] at hend
    omega

/-- A drive on which the header records `n` bytes. -/
def recordedDrive (n : Int) : Drive where
  file := (ParentFile.blank.put (fun _ => 0) (BLOBSIZE - 1) 1).put (encodeSize n) 0 4
  filePointer := fun _ => 0
  lastOffset := 0

/-- The first database handle of a process, opened on a drive. -/
def openedDatabase (d : Drive) : Rc × MfsSqliteVfs × Drive :=
  fs_open ⟨false, 0, .database, none⟩ d [100, 98] SQLITE_OPEN_MAIN_DB true 3
    fun _ => ⟨true, BLOBSIZE⟩

theorem opened_readable_iff_page : ¬Readable (openedDatabase (recordedDrive 512)).2.1
    (openedDatabase (recordedDrive 512)).2.2 := by
  intro hread
  have hnone := (opened_readable_iff (by decide +kernel)).mp hread
  exact absurd hnone (by decide +kernel)

/-- The page that the header tells of cannot be read. -/
theorem opened_page_unreadable :
    (openedDatabase (recordedDrive 512)).1 = .ok ∧
      (openedDatabase (recordedDrive 512)).2.1.realFile =
        some ⟨none, [100, 98], 512, 0, BLOBSIZE, 0⟩ ∧
      ∀ file, fs_read (openedDatabase (recordedDrive 512)).2.1 file carriedOut (fun _ => 0) 512 0 =
        none := by
  refine ⟨by decide +kernel, by decide +kernel, ?_⟩
  intro file
  have hreal : (openedDatabase (recordedDrive 512)).2.1.realFile =
      some ⟨none, [100, 98], 512, 0, BLOBSIZE, 0⟩ := by decide +kernel
  exact fs_read_unset hreal rfl (by decide) (by decide +kernel)

end SqliteFs
