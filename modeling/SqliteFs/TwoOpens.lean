import SqliteFs.Registered

/-!
The open of the registered table against that of the parent-file VFS, on one
image. Both take the database size from block 0 and look for a journal in the
last four bytes. `fsOpen` lays out a file that is empty, `fs_open` one that
records no size, so an image whose first size was never synced loses its last
byte to `fs_open` before it is looked at.
-/

namespace SqliteFs

open Lib

variable {f : ParentFile}

/-- The image records a size, or its last byte is what formatting writes there. -/
def ParentFile.SurvivesFormat (f : ParentFile) : Prop :=
  headerSize f ≠ 0 ∨ f.byte (BLOBSIZE - 1) = 0

theorem survivesFormat_iff :
    f.SurvivesFormat ↔ ∀ x, 0 ≤ x → x < BLOBSIZE → formatted f x = f.byte x := by
  constructor
  · rintro (hheader | hlast) x - -
    · exact formatted_of_headerSize hheader x
    · unfold formatted
      split_ifs with hcond
      · rw [hcond.2, hlast]
      · rfl
  · intro hkept
    by_cases hheader : headerSize f = 0
    · right
      have hbyte := hkept (BLOBSIZE - 1) (by decide) (by decide)
      rw [← hbyte]
      exact if_pos ⟨hheader, rfl⟩
    · exact Or.inl hheader

/-- The account of `fs_open` on an image that formatting does not change is the
one that `fsOpen` recovers. -/
theorem recordedSizes_eq (hsize : f.size = BLOBSIZE) (hkept : f.SurvivesFormat) :
    recordedSizes f = recovered f := by
  have hbytes := survivesFormat_iff.mp hkept
  have htail : (anySet fun k => formatted f (BLOBSIZE - 4 + k)) ↔ tailSet f := by
    unfold tailSet
    rw [hsize]
    apply anySet_congr
    intro k hlo hhi
    apply hbytes
    all_goals
      simp only [BLOBSIZE]
      omega
  unfold recordedSizes recovered recordedSize
  simp only [htail, hsize]

/-- What a successful `fsOpen` of a database that is not open yet records, and
that it leaves the file alone, for an image of the blob's size. -/
theorem fsOpen_recovered (hsize : f.size = BLOBSIZE) {v : FsVfs} {disk : Disk} {p : FsFile}
    {zName : Name} {flags : Nat} {malloc : Bool} {io : Outcomes} {out : Opened}
    (hdisk : disk zName = f) (hclosed : v.findReal zName (nameLength zName (openType flags)) = none)
    (hopen : fsOpen v disk p zName flags malloc io = some out) (hok : out.rc = .ok) :
    (out.vfs.real out.file.pReal).toSizes = recovered f ∧ out.disk zName = f := by
  have hne : f.size ≠ 0 := by
    rw [hsize]
    decide
  rcases Sys.fsOpen_cases hopen with ⟨a, hfound, -⟩ | ⟨-, -, hnew⟩
  · rw [hclosed] at hfound
    cases hfound
  rcases hnew with ⟨-, hopened, rfl⟩ | ⟨-, hfail, rfl⟩ | ⟨-, rfl⟩
  · rw [hdisk] at hopened ⊢
    rcases openReal_cases f io (by rw [hsize]; decide) (by rw [hsize]; decide) with
      ⟨hzero, -⟩ | ⟨-, heq⟩ | ⟨hfail, -⟩
    · exact absurd hzero hne
    · simp only [Function.update_self, heq, and_self]
    · exact absurd hopened hfail
  · exact absurd hok hfail
  · cases hok

/-- On an image of the blob's size the two opens, when they succeed, record the
same sizes and leave every byte exactly when formatting leaves the image. -/
theorem opens_agree_iff (hsize : f.size = BLOBSIZE) {p : MfsSqliteVfs} {d : Drive} {zName : Name}
    {flags : Nat} {malloc : Bool} {handle : Int} {io : Nat → Transfer} (hdrive : d.file = f)
    (hok : (fs_open p d zName flags malloc handle io).1 = .ok) {v : FsVfs} {disk : Disk}
    {p' : FsFile} {malloc' : Bool} {io' : Outcomes} {out : Opened} (hdisk : disk zName = f)
    (hclosed : v.findReal zName (nameLength zName (openType flags)) = none)
    (hopen : fsOpen v disk p' zName flags malloc' io' = some out) (hok' : out.rc = .ok) :
    ((∃ real_file, (fs_open p d zName flags malloc handle io).2.1.realFile = some real_file ∧
        real_file.asReal.toSizes = (out.vfs.real out.file.pReal).toSizes) ∧
      ∀ x, 0 ≤ x → x < BLOBSIZE →
        (fs_open p d zName flags malloc handle io).2.2.file.byte x = f.byte x ∧
          (out.disk zName).byte x = f.byte x) ↔
      f.SurvivesFormat := by
  obtain ⟨hsizes, hkept⟩ := fsOpen_recovered hsize hdisk hclosed hopen hok'
  obtain ⟨hrecord, hbytes, -⟩ := fs_open_ok hok
  rw [hdrive] at hrecord hbytes
  have hreal : ∃ real_file, (fs_open p d zName flags malloc handle io).2.1.realFile =
      some real_file ∧ real_file.asReal.toSizes = recordedSizes f := by
    rw [hrecord]
    exact ⟨_, rfl, by simp only [SqvfsRfile.asReal, recordedSizes]⟩
  rw [hsizes, hkept]
  constructor
  · rintro ⟨-, hall⟩
    apply survivesFormat_iff.mpr
    intro x hlo hhi
    rw [← hbytes x hhi]
    exact (hall x hlo hhi).1
  · intro hsurvives
    obtain ⟨real_file, hset, hrecorded⟩ := hreal
    refine ⟨⟨real_file, hset, hrecorded.trans (recordedSizes_eq hsize hsurvives)⟩, ?_⟩
    intro x hlo hhi
    rw [hbytes x hhi]
    exact ⟨survivesFormat_iff.mp hsurvives x hlo hhi, rfl⟩

/-- The first database of a process, opened on a parent file. -/
def openedFile (f : ParentFile) : Option Opened :=
  fsOpen FsVfs.init (fun _ => f) ⟨false, .database, 0⟩ [100, 98] SQLITE_OPEN_MAIN_DB true carriedOut

theorem opens_agree_iff_page : ∃ out, openedFile (recordedDrive 512).file = some out ∧
    ∃ real_file, (openedDatabase (recordedDrive 512)).2.1.realFile = some real_file ∧
      real_file.asReal.toSizes = (out.vfs.real out.file.pReal).toSizes := by
  have hok : (openedFile (recordedDrive 512).file).map (fun out => out.rc) = some .ok := by
    decide +kernel
  obtain ⟨out, hopen, hrc⟩ := Option.map_eq_some_iff.mp hok
  have hsurvives : (recordedDrive 512).file.SurvivesFormat := Or.inl (by decide +kernel)
  have hopened : (openedDatabase (recordedDrive 512)).1 = .ok := by decide +kernel
  have hagree := (opens_agree_iff (by decide +kernel) rfl hopened rfl rfl hopen hrc).mpr hsurvives
  exact ⟨out, hopen, hagree.1⟩

/-- An image with a journal that ends in a one and no size yet. -/
def unsyncedDrive : Drive where
  file := ParentFile.blank.put (fun _ => 1) (BLOBSIZE - 1) 1
  filePointer := fun _ => 0
  lastOffset := 0

/-- `fsOpen` finds the journal; `fs_open` overwrites its last byte and misses it. -/
theorem unsynced_journal_lost :
    unsyncedDrive.file.size = BLOBSIZE ∧
      (openedDatabase unsyncedDrive).1 = .ok ∧
      (openedDatabase unsyncedDrive).2.1.realFile =
        some ⟨none, [100, 98], 0, 0, BLOBSIZE, 0⟩ ∧
      unsyncedDrive.file.byte (BLOBSIZE - 1) = 1 ∧
      (openedDatabase unsyncedDrive).2.2.file.byte (BLOBSIZE - 1) = 0 ∧
      (openedFile unsyncedDrive.file).map (fun out =>
        (out.rc, (out.vfs.real out.file.pReal).toSizes)) = some (.ok, ⟨0, BLOBSIZE, BLOBSIZE⟩) := by
  refine ⟨?_, ?_, ?_, ?_, ?_, ?_⟩
  all_goals decide +kernel

end SqliteFs
