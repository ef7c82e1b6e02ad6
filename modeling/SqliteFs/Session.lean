import SqliteFs.Vfs
import SqliteFs.Lib.Run

/-!
The VFS together with its caller and the medium: which handles are open, and
one step per call of a VFS or file method. The process may also stop at any
point, which loses every record and handle and keeps the medium. A call that
the caller may not make (through a handle that is not open, or into one that
is) has no step, nor has one that fails an assertion.
-/

namespace SqliteFs

open Lib

/-- An open handle of the caller, with the name of the database it was asked for. -/
structure Handle where
  id : Nat
  zDb : Name
  file : FsFile
  deriving DecidableEq

structure Sys where
  vfs : FsVfs
  disk : Disk
  handles : List Handle

inductive Call where
  | xOpen (id : Nat) (zName : Name) (flags : Nat) (malloc : Bool) (io : Outcomes)
  | xClose (id : Nat) (io : Outcomes)
  | xRead (id : Nat) (zBuf : Bytes) (iAmt iOfst : Int) (io : Outcomes)
  | xWrite (id : Nat) (zBuf : Bytes) (iAmt iOfst : Int) (io : Outcomes)
  | xTruncate (id : Nat) (size : Int)
  | xSync (id : Nat) (io : Outcomes)
  | xFileSize (id : Nat)
  | xDelete (zPath : Name) (io : Outcomes)
  | xAccess (zPath : Name) (flags : Int) (parent : Rc × Int)
  | stop

/-- What a call returns: its code, the caller's buffer after a read, and the
value stored through `pSize` or `pResOut`. -/
structure Reply where
  rc : Rc
  zBuf : Bytes := fun _ => 0
  out : Int := 0

namespace Sys

/-- A process that has opened nothing yet. -/
def start (disk : Disk) : Sys := ⟨FsVfs.init, disk, []⟩

def handle (s : Sys) (id : Nat) : Option Handle := s.handles.find? fun h => h.id = id

/-- The record a handle is bound to. -/
def pReal (s : Sys) (h : Handle) : FsRealFile := s.vfs.real h.file.pReal

/-- The parent file of the record a handle is bound to. -/
def pFile (s : Sys) (h : Handle) : ParentFile := s.disk (s.pReal h).zName

/-- The record at `a` and its parent file get new contents. -/
def store (s : Sys) (a : Nat) (z : Sizes) (f : ParentFile) : Sys :=
  { s with
    vfs := s.vfs.setSizes a z
    disk := Function.update s.disk (s.vfs.real a).zName f }

/-- The database a file name belongs to: a journal is named after it. -/
def dbName (zName : Name) (flags : Nat) : Name :=
  if openType flags = .database then zName else zName.take (zName.length - 8)

def step (s : Sys) : Call → Option (Sys × Reply)
  | .xOpen id zName flags malloc io =>
    if s.handle id = none then
      (fsOpen s.vfs s.disk ⟨false, .database, 0⟩ zName flags malloc io).map fun out =>
        (⟨out.vfs, out.disk,
          if out.rc = .ok then ⟨id, dbName zName flags, out.file⟩ :: s.handles else s.handles⟩,
          ⟨out.rc, fun _ => 0, 0⟩)
    else none
  | .xClose id io =>
    (s.handle id).bind fun h => (fsClose s.vfs h.file io).map fun out =>
      (⟨out.2, s.disk, s.handles.filter fun h => h.id ≠ id⟩, ⟨out.1, fun _ => 0, 0⟩)
  | .xRead id zBuf iAmt iOfst io =>
    (s.handle id).map fun h =>
      let out := fsRead h.file.eType (s.pReal h).toSizes (s.pFile h) io zBuf iAmt iOfst
      (s, ⟨out.1, out.2, 0⟩)
  | .xWrite id zBuf iAmt iOfst io =>
    (s.handle id).map fun h =>
      let out := fsWrite h.file.eType (s.pReal h).toSizes (s.pFile h) io zBuf iAmt iOfst
      (s.store h.file.pReal out.2.1 out.2.2, ⟨out.1, fun _ => 0, 0⟩)
  | .xTruncate id size =>
    (s.handle id).map fun h =>
      let z := fsTruncate h.file.eType (s.pReal h).toSizes size
      (s.store h.file.pReal z (s.pFile h), ⟨.ok, fun _ => 0, 0⟩)
  | .xSync id io =>
    (s.handle id).map fun h =>
      let out := fsSync h.file.eType (s.pReal h).toSizes (s.pFile h) io
      (s.store h.file.pReal (s.pReal h).toSizes out.2, ⟨out.1, fun _ => 0, 0⟩)
  | .xFileSize id =>
    (s.handle id).map fun h =>
      (s, ⟨.ok, fun _ => 0, fsFileSize h.file.eType (s.pReal h).toSizes⟩)
  | .xDelete zPath io =>
    (fsDelete s.vfs s.disk zPath io).map fun out =>
      (⟨out.2.1, out.2.2, s.handles⟩, ⟨out.1, fun _ => 0, 0⟩)
  | .xAccess zPath flags parent =>
    let out := fsAccess s.vfs zPath flags parent
    some (s, ⟨out.1, fun _ => 0, out.2⟩)
  | .stop => some (start s.disk, ⟨.ok, fun _ => 0, 0⟩)

def next (s : Sys) (c : Call) : Option Sys := (s.step c).map Prod.fst

theorem next_eq_some {s t : Sys} {c : Call} :
    s.next c = some t ↔ ∃ r, s.step c = some (t, r) := by
  simp [next, Option.map_eq_some_iff]

theorem handle_eq_some {s : Sys} {id : Nat} {h : Handle} (hh : s.handle id = some h) :
    h ∈ s.handles ∧ h.id = id :=
  ⟨List.mem_of_find?_eq_some hh, by simpa using List.find?_some hh⟩

/-- What holds of the list, the records and the handles between calls: no
record is listed twice, no name has two records, every open handle is bound to
a listed record, and a listed record counts its handles, of which it has one. -/
structure WellFormed (s : Sys) : Prop where
  nodup : s.vfs.pFileList.Nodup
  names : ∀ a ∈ s.vfs.pFileList, ∀ b ∈ s.vfs.pFileList,
    (s.vfs.real a).zName = (s.vfs.real b).zName → a = b
  ids : (s.handles.map Handle.id).Nodup
  bound : ∀ h ∈ s.handles, h.file.pReal ∈ s.vfs.pFileList
  refs : ∀ a ∈ s.vfs.pFileList,
    (s.vfs.real a).nRef = s.handles.countP fun h => h.file.pReal = a
  live : ∀ a ∈ s.vfs.pFileList, 0 < (s.vfs.real a).nRef

theorem start_wellFormed (disk : Disk) : (start disk).WellFormed := by
  constructor <;> simp [start, FsVfs.init]

end Sys

namespace FsVfs

variable (v : FsVfs) (a : Nat) (z : Sizes) (n : Int)

@[simp] theorem setSizes_pFileList : (v.setSizes a z).pFileList = v.pFileList := rfl

@[simp] theorem setRef_pFileList : (v.setRef a n).pFileList = v.pFileList := rfl

@[simp] theorem setSizes_zName (b : Nat) : ((v.setSizes a z).real b).zName = (v.real b).zName := by
  by_cases h : b = a <;> simp [setSizes, h]

@[simp] theorem setSizes_nRef (b : Nat) : ((v.setSizes a z).real b).nRef = (v.real b).nRef := by
  by_cases h : b = a <;> simp [setSizes, h]

@[simp] theorem setRef_zName (b : Nat) : ((v.setRef a n).real b).zName = (v.real b).zName := by
  by_cases h : b = a <;> simp [setRef, h]

@[simp] theorem setRef_toSizes (b : Nat) :
    ((v.setRef a n).real b).toSizes = (v.real b).toSizes := by
  by_cases h : b = a <;> simp [setRef, h]

theorem setSizes_toSizes (b : Nat) :
    ((v.setSizes a z).real b).toSizes = if b = a then z else (v.real b).toSizes := by
  by_cases h : b = a <;> simp [setSizes, h]

theorem setRef_nRef (b : Nat) :
    ((v.setRef a n).real b).nRef = if b = a then n else (v.real b).nRef := by
  by_cases h : b = a <;> simp [setRef, h]

variable {v}

/-- What the search finds is listed and agrees with the name that far. -/
theorem findReal_some {zName : Name} {nName : Int} {a : Nat}
    (h : v.findReal zName nName = some a) :
    a ∈ v.pFileList ∧ (v.real a).zName.take (sizeT nName) =
      zName.take (sizeT nName) := by
  refine ⟨List.mem_of_find?_eq_some h, ?_⟩
  have hmatch := List.find?_some h
  exact (strncmp_eq_zero_iff _ _ _).mp (by simpa using hmatch)

theorem findReal_none {zName : Name} {nName : Int} (h : v.findReal zName nName = none) :
    ∀ a ∈ v.pFileList, (v.real a).zName.take (sizeT nName) ≠
      zName.take (sizeT nName) := by
  intro a ha heq
  have hmiss := List.find?_eq_none.mp h a ha
  exact hmiss (by simpa using (strncmp_eq_zero_iff _ _ _).mpr heq)

end FsVfs

namespace Sys

/-- New contents for a record leave the links and the counts as they are. -/
theorem WellFormed.store {s : Sys} (hwf : s.WellFormed) (a : Nat) (z : Sizes)
    (f : ParentFile) : (s.store a z f).WellFormed where
  nodup := hwf.nodup
  names := by simpa [Sys.store] using hwf.names
  ids := hwf.ids
  bound := hwf.bound
  refs := by simpa [Sys.store] using hwf.refs
  live := by simpa [Sys.store] using hwf.live

/-- A new handle on a listed record. -/
theorem WellFormed.bind {s : Sys} (hwf : s.WellFormed) {h : Handle}
    (hlisted : h.file.pReal ∈ s.vfs.pFileList) (hid : h.id ∉ s.handles.map Handle.id) :
    (⟨s.vfs.setRef h.file.pReal ((s.vfs.real h.file.pReal).nRef + 1), s.disk,
      h :: s.handles⟩ : Sys).WellFormed where
  nodup := hwf.nodup
  names := by simpa using hwf.names
  ids := by simpa using ⟨by simpa using hid, hwf.ids⟩
  bound := by
    intro h' hmem
    rcases List.mem_cons.mp hmem with rfl | hold
    · exact hlisted
    · exact hwf.bound h' hold
  refs := by
    intro a ha
    have href := hwf.refs a ha
    rw [FsVfs.setRef_nRef, List.countP_cons]
    by_cases hsame : a = h.file.pReal
    · subst hsame
      simp [href]
    · have hother : ¬h.file.pReal = a := fun heq => hsame heq.symm
      simp [hsame, hother, href]
  live := by
    intro a ha
    have hpos := hwf.live a ha
    have hposBound := hwf.live _ hlisted
    rw [FsVfs.setRef_nRef]
    split_ifs
    · omega
    · exact hpos

/-- A new record at the head of the list with its first handle. -/
theorem WellFormed.insert {s : Sys} (hwf : s.WellFormed) {h : Handle} {pReal : FsRealFile}
    {disk : Disk} (hnew : h.file.pReal ∉ s.vfs.pFileList) (href : pReal.nRef = 1)
    (hname : ∀ a ∈ s.vfs.pFileList, (s.vfs.real a).zName ≠ pReal.zName)
    (hid : h.id ∉ s.handles.map Handle.id) :
    (⟨⟨h.file.pReal :: s.vfs.pFileList, Function.update s.vfs.real h.file.pReal pReal⟩, disk,
      h :: s.handles⟩ : Sys).WellFormed := by
  have hold : ∀ a ∈ s.vfs.pFileList,
      Function.update s.vfs.real h.file.pReal pReal a = s.vfs.real a := by
    intro a ha
    refine Function.update_of_ne ?_ _ _
    rintro rfl
    exact hnew ha
  constructor
  · exact List.nodup_cons.mpr ⟨hnew, hwf.nodup⟩
  · intro a ha b hb heq
    rcases List.mem_cons.mp ha with rfl | ha
    · rcases List.mem_cons.mp hb with rfl | hb
      · rfl
      · simp only [Function.update_self, hold b hb] at heq
        exact absurd heq.symm (hname b hb)
    · rcases List.mem_cons.mp hb with rfl | hb
      · simp only [Function.update_self, hold a ha] at heq
        exact absurd heq (hname a ha)
      · simp only [hold a ha, hold b hb] at heq
        exact hwf.names a ha b hb heq
  · simpa using ⟨by simpa using hid, hwf.ids⟩
  · intro h' hmem
    rcases List.mem_cons.mp hmem with rfl | hmem
    · exact List.mem_cons_self
    · exact List.mem_cons_of_mem _ (hwf.bound h' hmem)
  · intro a ha
    rw [List.countP_cons]
    rcases List.mem_cons.mp ha with rfl | ha
    · have hzero : s.handles.countP (fun h' => h'.file.pReal = h.file.pReal) = 0 := by
        rw [List.countP_eq_zero]
        intro h' hmem
        have hbound := hwf.bound h' hmem
        simp only [decide_eq_true_eq]
        intro heq
        rw [heq] at hbound
        exact hnew hbound
      simp [hzero, href]
    · have hother : ¬h.file.pReal = a := by
        rintro rfl
        exact hnew ha
      simp [hold a ha, hwf.refs a ha, hother]
  · intro a ha
    rcases List.mem_cons.mp ha with rfl | ha
    · simp [href]
    · simpa [hold a ha] using hwf.live a ha

/-- Dropping the one handle with a given number. -/
theorem filter_id_perm {l : List Handle} (hids : (l.map Handle.id).Nodup) {h : Handle}
    (hmem : h ∈ l) : (h :: l.filter fun h' => h'.id ≠ h.id).Perm l := by
  induction l with
  | nil => cases hmem
  | cons x l ih =>
      rw [List.map_cons, List.nodup_cons] at hids
      rcases List.mem_cons.mp hmem with rfl | htail
      · have hkeep : l.filter (fun h' => h'.id ≠ h.id) = l := by
          rw [List.filter_eq_self]
          intro h' hmem'
          have hne : h'.id ≠ h.id := by
            intro heq
            rw [← heq] at hids
            exact hids.1 (List.mem_map_of_mem hmem')
          simpa using hne
        rw [List.filter_cons_of_neg (by simp), hkeep]
      · have hne : x.id ≠ h.id := by
          intro heq
          rw [heq] at hids
          exact hids.1 (List.mem_map_of_mem htail)
        rw [List.filter_cons_of_pos (by simpa using hne)]
        exact (List.Perm.swap x h _).trans ((ih hids.2 htail).cons x)

/-- How `fsClose` can end: with the last reference the record leaves the list. -/
theorem fsClose_cases {v v' : FsVfs} {p : FsFile} {io : Outcomes} {rc : Rc}
    (h : fsClose v p io = some (rc, v')) :
    ((v.real p.pReal).nRef = 1 ∧ rc = (io 0).rc ∧
      v' = ⟨v.pFileList.erase p.pReal, (v.setRef p.pReal 0).real⟩) ∨
    (1 < (v.real p.pReal).nRef ∧ rc = .ok ∧
      v' = v.setRef p.pReal ((v.real p.pReal).nRef - 1)) := by
  unfold fsClose at h
  simp only at h
  split_ifs at h with hneg hzero
  · obtain ⟨rfl, rfl⟩ := Prod.ext_iff.mp (Option.some.inj h)
    exact Or.inl ⟨by omega, rfl, by rw [hzero]; rfl⟩
  · obtain ⟨rfl, rfl⟩ := Prod.ext_iff.mp (Option.some.inj h)
    exact Or.inr ⟨by omega, rfl, rfl⟩

/-- How `fsDelete` can end: it works on the record it finds, or on none. -/
theorem fsDelete_cases {v : FsVfs} {disk : Disk} {zPath : Name} {io : Outcomes}
    {out : Rc × FsVfs × Disk} (h : fsDelete v disk zPath io = some out) :
    (0 ≤ (zPath.length : Int) - 8 ∧
      zPath.drop ((zPath.length : Int) - 8).toNat = journalSuffix) ∧
    ((∃ a, v.findReal zPath (zPath.length - 8) = some a ∧
      let deleted := deleteReal (v.real a).toSizes (disk (v.real a).zName) io
      out = (deleted.1, v.setSizes a deleted.2.1,
        Function.update disk (v.real a).zName deleted.2.2)) ∨
    (v.findReal zPath (zPath.length - 8) = none ∧ out = (.ok, v, disk))) := by
  unfold fsDelete at h
  simp only at h
  split_ifs at h with hjournal
  refine ⟨hjournal, ?_⟩
  split at h
  · next a hfound => exact Or.inl ⟨a, hfound, (Option.some.inj h).symm⟩
  · next hfound => exact Or.inr ⟨hfound, (Option.some.inj h).symm⟩

/-- Dropping a handle takes one from the count of its record. -/
theorem countP_drop {l : List Handle} (hids : (l.map Handle.id).Nodup) {h : Handle}
    (hmem : h ∈ l) (a : Nat) :
    (l.countP fun h' => h'.file.pReal = a) =
      ((l.filter fun h' => h'.id ≠ h.id).countP fun h' => h'.file.pReal = a) +
        if h.file.pReal = a then 1 else 0 := by
  rw [← (filter_id_perm hids hmem).countP_eq, List.countP_cons]
  simp

/-- Closing a handle: the record goes with its last one. -/
theorem WellFormed.close {s : Sys} (hwf : s.WellFormed) {id : Nat} {h : Handle}
    (hh : s.handle id = some h) {io : Outcomes} {rc : Rc} {v : FsVfs}
    (hclose : fsClose s.vfs h.file io = some (rc, v)) :
    (⟨v, s.disk, s.handles.filter fun h => h.id ≠ id⟩ : Sys).WellFormed := by
  obtain ⟨hmem, rfl⟩ := handle_eq_some hh
  have hlisted := hwf.bound h hmem
  have hcount := countP_drop hwf.ids hmem
  have hids : ((s.handles.filter fun h' => h'.id ≠ h.id).map Handle.id).Nodup :=
    hwf.ids.sublist (List.filter_sublist.map _)
  have hsub : ∀ h' ∈ s.handles.filter (fun h' => h'.id ≠ h.id), h' ∈ s.handles :=
    fun h' hmem' => List.mem_of_mem_filter hmem'
  have href := hwf.refs _ hlisted
  have hself := hcount h.file.pReal
  rw [if_pos rfl] at hself
  rcases fsClose_cases hclose with ⟨hlast, -, rfl⟩ | ⟨hmore, -, rfl⟩
  · -- the last handle: nothing is bound to the record any more
    have hnone : ∀ h' ∈ s.handles.filter (fun h' => h'.id ≠ h.id),
        h'.file.pReal ≠ h.file.pReal := by
      have hcountZero : (s.handles.filter fun h' => h'.id ≠ h.id).countP
          (fun h' => h'.file.pReal = h.file.pReal) = 0 := by omega
      rw [List.countP_eq_zero] at hcountZero
      intro h' hmem'
      simpa using hcountZero h' hmem'
    have hkept : ∀ a ∈ s.vfs.pFileList.erase h.file.pReal,
        a ∈ s.vfs.pFileList ∧ a ≠ h.file.pReal := by
      intro a ha
      exact ⟨List.mem_of_mem_erase ha, ((List.Nodup.mem_erase_iff hwf.nodup).mp ha).1⟩
    constructor
    · exact hwf.nodup.sublist List.erase_sublist
    · intro a ha b hb
      simpa using hwf.names a (hkept a ha).1 b (hkept b hb).1
    · exact hids
    · intro h' hmem'
      exact (List.Nodup.mem_erase_iff hwf.nodup).mpr
        ⟨hnone h' hmem', hwf.bound h' (hsub h' hmem')⟩
    · intro a ha
      have hother : h.file.pReal ≠ a := (hkept a ha).2.symm
      have hrefs := hwf.refs a (hkept a ha).1
      rw [hcount a, if_neg hother] at hrefs
      simpa [FsVfs.setRef_nRef, (hkept a ha).2] using hrefs
    · intro a ha
      simpa [FsVfs.setRef_nRef, (hkept a ha).2] using hwf.live a (hkept a ha).1
  · constructor
    · exact hwf.nodup
    · simpa using hwf.names
    · exact hids
    · exact fun h' hmem' => hwf.bound h' (hsub h' hmem')
    · intro a ha
      have hrefs := hwf.refs a ha
      rw [hcount a] at hrefs
      rw [FsVfs.setRef_nRef]
      by_cases hsame : a = h.file.pReal
      · subst hsame
        rw [if_pos rfl, href, hself]
        push_cast
        ring
      · rw [if_neg (fun heq : h.file.pReal = a => hsame heq.symm), add_zero] at hrefs
        rw [if_neg hsame, hrefs]
    · intro a ha
      have hpos := hwf.live a ha
      rw [FsVfs.setRef_nRef]
      split_ifs with hsame
      · omega
      · exact hpos

theorem handle_eq_none {s : Sys} {id : Nat} (hh : s.handle id = none) :
    id ∉ s.handles.map Handle.id := by
  intro hmem
  obtain ⟨h, hin, rfl⟩ := List.mem_map.mp hmem
  have hmiss := List.find?_eq_none.mp hh h hin
  simp at hmiss

/-- How `fsOpen` can end: it binds the handle to a listed record, it lists a
new record of the name it was given, the new file fails to open, or there is
no memory for a record. -/
theorem fsOpen_cases {v : FsVfs} {disk : Disk} {p : FsFile} {zName : Name} {flags : Nat}
    {malloc : Bool} {io : Outcomes} {out : Opened}
    (h : fsOpen v disk p zName flags malloc io = some out) :
    (∃ a, v.findReal zName (nameLength zName (openType flags)) = some a ∧
      out = ⟨.ok, v.setRef a ((v.real a).nRef + 1), disk, ⟨true, openType flags, a⟩⟩) ∨
    (v.findReal zName (nameLength zName (openType flags)) = none ∧
      openType flags = .database ∧
      ((malloc = true ∧ (openReal (disk zName) io).1 = .ok ∧
        out = ⟨.ok, ⟨v.sqlite3Malloc :: v.pFileList, Function.update v.real v.sqlite3Malloc
            ⟨(openReal (disk zName) io).2.1, zName, 1⟩⟩,
          Function.update disk zName (openReal (disk zName) io).2.2,
          ⟨true, openType flags, v.sqlite3Malloc⟩⟩) ∨
      (malloc = true ∧ (openReal (disk zName) io).1 ≠ .ok ∧
        out = ⟨(openReal (disk zName) io).1, v,
          Function.update disk zName (openReal (disk zName) io).2.2,
          ⟨true, openType flags, p.pReal⟩⟩) ∨
      (malloc = false ∧ out = ⟨.nomem, v, disk, ⟨true, openType flags, p.pReal⟩⟩))) := by
  unfold fsOpen at h
  simp only at h
  split at h
  · next a hfound => exact Or.inl ⟨a, hfound, (Option.some.inj h).symm⟩
  · next hfound =>
      refine Or.inr ⟨hfound, ?_⟩
      split_ifs at h with hjournal hmalloc hrc
      · exact ⟨not_not.mp hjournal, Or.inr (Or.inr ⟨hmalloc, (Option.some.inj h).symm⟩)⟩
      · exact ⟨not_not.mp hjournal,
          Or.inl ⟨by simpa using hmalloc, hrc, (Option.some.inj h).symm⟩⟩
      · exact ⟨not_not.mp hjournal,
          Or.inr (Or.inl ⟨by simpa using hmalloc, hrc, (Option.some.inj h).symm⟩)⟩

/-- No record has the name of a database that the search does not find. -/
theorem findReal_none_name {v : FsVfs} {zName : Name} {nName : Int}
    (h : v.findReal zName nName = none) : ∀ a ∈ v.pFileList, (v.real a).zName ≠ zName :=
  fun a ha heq => FsVfs.findReal_none h a ha (by rw [heq])

/-- Every call keeps the list, the records and the handles consistent. -/
theorem WellFormed.step {s t : Sys} (hwf : s.WellFormed) {c : Call} {r : Reply}
    (hstep : s.step c = some (t, r)) : t.WellFormed := by
  cases c with
  | xOpen id zName flags malloc io =>
      simp only [Sys.step] at hstep
      split_ifs at hstep with hid
      obtain ⟨out, hout, heq⟩ := Option.map_eq_some_iff.mp hstep
      obtain ⟨rfl, -⟩ := Prod.ext_iff.mp heq
      rcases fsOpen_cases hout with
        ⟨a, hfound, rfl⟩ | ⟨hnone, -, ⟨-, -, rfl⟩ | ⟨-, hrc, rfl⟩ | ⟨-, rfl⟩⟩
      · exact hwf.bind (h := ⟨id, dbName zName flags, ⟨true, openType flags, a⟩⟩)
          (FsVfs.findReal_some hfound).1 (handle_eq_none hid)
      · exact hwf.insert
          (h := ⟨id, dbName zName flags, ⟨true, openType flags, s.vfs.sqlite3Malloc⟩⟩)
          s.vfs.sqlite3Malloc_fresh rfl (findReal_none_name hnone) (handle_eq_none hid)
      · rw [if_neg hrc]
        exact ⟨hwf.nodup, hwf.names, hwf.ids, hwf.bound, hwf.refs, hwf.live⟩
      · exact hwf
  | xClose id io =>
      obtain ⟨h, hh, hout⟩ := Option.bind_eq_some_iff.mp hstep
      obtain ⟨out, hclose, heq⟩ := Option.map_eq_some_iff.mp hout
      obtain ⟨rfl, -⟩ := Prod.ext_iff.mp heq
      exact hwf.close hh hclose
  | xRead id zBuf iAmt iOfst io =>
      obtain ⟨h, -, heq⟩ := Option.map_eq_some_iff.mp hstep
      obtain ⟨rfl, -⟩ := Prod.ext_iff.mp heq
      exact hwf
  | xWrite id zBuf iAmt iOfst io =>
      obtain ⟨h, -, heq⟩ := Option.map_eq_some_iff.mp hstep
      obtain ⟨rfl, -⟩ := Prod.ext_iff.mp heq
      exact hwf.store _ _ _
  | xTruncate id size =>
      obtain ⟨h, -, heq⟩ := Option.map_eq_some_iff.mp hstep
      obtain ⟨rfl, -⟩ := Prod.ext_iff.mp heq
      exact hwf.store _ _ _
  | xSync id io =>
      obtain ⟨h, -, heq⟩ := Option.map_eq_some_iff.mp hstep
      obtain ⟨rfl, -⟩ := Prod.ext_iff.mp heq
      exact hwf.store _ _ _
  | xFileSize id =>
      obtain ⟨h, -, heq⟩ := Option.map_eq_some_iff.mp hstep
      obtain ⟨rfl, -⟩ := Prod.ext_iff.mp heq
      exact hwf
  | xDelete zPath io =>
      obtain ⟨out, hdelete, heq⟩ := Option.map_eq_some_iff.mp hstep
      obtain ⟨rfl, -⟩ := Prod.ext_iff.mp heq
      obtain ⟨-, ⟨a, -, rfl⟩ | ⟨-, rfl⟩⟩ := fsDelete_cases hdelete
      · exact hwf.store _ _ _
      · exact hwf
  | xAccess zPath flags parent =>
      obtain ⟨rfl, -⟩ := Prod.ext_iff.mp (Option.some.inj hstep)
      exact hwf
  | stop =>
      obtain ⟨rfl, -⟩ := Prod.ext_iff.mp (Option.some.inj hstep)
      exact start_wellFormed _

end Sys

end SqliteFs
