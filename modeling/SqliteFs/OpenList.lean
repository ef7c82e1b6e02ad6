import SqliteFs.Session
import SqliteFs.Lib.LinkedList

/-!
`fsOpen` and `fsClose` on memory. The records are blocks from `sqlite3_malloc`,
threaded by `pNext` and `ppThis`, and an access to a block that is not
allocated has no result. While the memory represents a list of open files both
functions do to it what their counterparts of the module `Vfs` do to the list.
-/

namespace SqliteFs

open Lib

/-- The memory of the VFS: `pFileList` with `pNext` and `ppThis` of every
record, the other fields of the records, which blocks are allocated, and in
which of them `pFile` is an open file of the parent. -/
structure Memory where
  links : Links Nat
  real : Nat → FsRealFile
  blocks : Finset Nat
  opened : Finset Nat

namespace Memory

def init : Memory := ⟨⟨none, fun _ => none, fun _ => .head⟩, FsVfs.init.real, ∅, ∅⟩

def live (m : Memory) (a : Nat) : Bool := a ∈ m.blocks

/-- The block that a link is in, if it is in one, is allocated. -/
def linkLive (m : Memory) : Link Nat → Bool
  | .head => true
  | .next a => m.live a

/-- The search loop. There are no more pointers to follow than there are blocks. -/
def findReal (m : Memory) (zName : Name) (nName : Int) : Option (Option Nat) :=
  m.links.search m.live (fun a => decide (strncmp (m.real a).zName zName (sizeT nName) = 0))
    (m.blocks.card + 1) m.links.head

def setRef (m : Memory) (a : Nat) (nRef : Int) : Memory :=
  { m with real := Function.update m.real a { m.real a with nRef := nRef } }

/-- A block that is cleared and given its name. The two links of a record are
set before they are read. -/
def alloc (m : Memory) (a : Nat) (zName : Name) : Memory :=
  { m with
    real := Function.update m.real a ⟨⟨0, 0, 0⟩, zName, 0⟩
    blocks := insert a m.blocks }

def setSizes (m : Memory) (a : Nat) (z : Sizes) : Memory :=
  { m with real := Function.update m.real a { m.real a with toSizes := z } }

/-- The parent's `xOpen` sets `pMethods` when it succeeds, and may when it fails. -/
def openFile (m : Memory) (a : Nat) (rc : Rc) (methods : Bool) : Memory :=
  if rc = .ok ∨ methods then { m with opened := insert a m.opened } else m

/-- The parent's `xClose`. -/
def closeFile (m : Memory) (a : Nat) : Memory := { m with opened := m.opened.erase a }

def free (m : Memory) (a : Nat) : Memory := { m with blocks := m.blocks.erase a }

/-- The record goes to the head of the list. -/
def link (m : Memory) (a : Nat) : Option Memory :=
  if m.links.head.all m.live then some { m with links := m.links.push a } else none

/-- The record is taken out through `ppThis`. -/
def unlink (m : Memory) (a : Nat) : Option Memory :=
  if m.linkLive (m.links.prev a) ∧ (m.links.next a).all m.live then
    some { m with links := m.links.unlink a }
  else none

/-- What `fsOpen` leaves behind. -/
structure Opening where
  rc : Rc
  memory : Memory
  disk : Disk
  file : FsFile

/-- Open an fs file handle. `malloc` is the block that `sqlite3_malloc` returns,
`methods` whether a parent `xOpen` that fails leaves `pMethods` set. -/
def fsOpen (m : Memory) (disk : Disk) (p : FsFile) (zName : Name) (flags : Nat)
    (malloc : Option Nat) (methods : Bool) (io : Outcomes) : Option Opening :=
  let eType := openType flags
  let p := { p with pMethods := true, eType := eType }
  match m.findReal zName (nameLength zName eType) with
  | none => none
  | some (some a) =>
    some ⟨.ok, m.setRef a ((m.real a).nRef + 1), disk, { p with pReal := a }⟩
  | some none =>
    if eType ≠ .database then none
    else
      match malloc with
      | none => some ⟨.nomem, m, disk, p⟩
      | some a =>
        let m := (m.alloc a zName).openFile a (io 0).rc methods
        let out := openReal (disk zName) io
        let disk := Function.update disk zName out.2.2
        let m := m.setSizes a out.2.1
        if out.1 = .ok then
          (m.link a).map fun m =>
            ⟨.ok, m.setRef a ((m.real a).nRef + 1), disk, { p with pReal := a }⟩
        else some ⟨out.1, (m.closeFile a).free a, disk, p⟩

/-- Close an fs-file. -/
def fsClose (m : Memory) (p : FsFile) (io : Outcomes) : Option (Rc × Memory) :=
  if m.live p.pReal = false then none
  else
    let nRef := (m.real p.pReal).nRef - 1
    let m := m.setRef p.pReal nRef
    if nRef < 0 then none
    else if nRef = 0 then
      if p.pReal ∈ m.opened then
        (m.unlink p.pReal).map fun m => ((io 0).rc, (m.closeFile p.pReal).free p.pReal)
      else none
    else some (.ok, m)

/-- `sqlite3OsClose`, the only way SQLite closes a handle. -/
def sqlite3OsClose (m : Memory) (p : FsFile) (io : Outcomes) : Option (Memory × FsFile) :=
  if p.pMethods then
    (m.fsClose p io).map fun out => (out.2, { p with pMethods := false })
  else some (m, p)

/-! ## The list in memory -/

/-- The memory holds the list of open files `v`, and nothing else is allocated
or open. -/
structure Represents (m : Memory) (v : FsVfs) : Prop where
  spells : m.links.Spells .head v.pFileList
  real : ∀ a ∈ v.pFileList, m.real a = v.real a
  blocks : m.blocks = v.pFileList.toFinset
  opened : m.opened = v.pFileList.toFinset

theorem init_represents : init.Represents FsVfs.init where
  spells := rfl
  real := fun _ _ => rfl
  blocks := rfl
  opened := rfl

section

variable {m : Memory} {v : FsVfs}

theorem Represents.mem_blocks (hm : m.Represents v) {a : Nat} :
    a ∈ m.blocks ↔ a ∈ v.pFileList := by
  rw [hm.blocks, List.mem_toFinset]

theorem Represents.live_iff (hm : m.Represents v) {a : Nat} :
    m.live a = true ↔ a ∈ v.pFileList := by
  rw [live, decide_eq_true_eq, hm.mem_blocks]

/-- The search in memory ends, looks at live blocks only and finds what the
search of the list finds. -/
theorem Represents.findReal (hm : m.Represents v) (zName : Name) (nName : Int) :
    m.findReal zName nName = some (v.findReal zName nName) := by
  have hcard : v.pFileList.length < m.blocks.card + 1 := by
    rw [hm.blocks, List.toFinset_card_of_nodup hm.spells.head_nodup]
    exact Nat.lt_succ_self _
  have hsearch := hm.spells.search_eq (fun a ha => hm.live_iff.mpr ha)
    (fun a => decide (strncmp (m.real a).zName zName (sizeT nName) = 0)) hcard
  unfold Memory.findReal FsVfs.findReal
  rw [show m.links.head = m.links.read .head from rfl, hsearch]
  congr 1
  apply List.find?_congr
  intro a ha
  rw [hm.real a ha]

theorem Represents.setRef (hm : m.Represents v) (a : Nat) (nRef : Int) (ha : a ∈ v.pFileList) :
    (m.setRef a nRef).Represents (v.setRef a nRef) where
  spells := hm.spells
  real := by
    intro b hb
    simp only [Memory.setRef, FsVfs.setRef, hm.real a ha]
    by_cases hba : b = a
    · rw [hba, Function.update_self, Function.update_self]
    · rw [Function.update_of_ne hba, Function.update_of_ne hba]
      exact hm.real b hb
  blocks := hm.blocks
  opened := hm.opened

/-- A record that was allocated, opened and linked is the first of the list. -/
theorem Represents.insert (hm : m.Represents v) {a : Nat} (ha : a ∉ v.pFileList) (z : Sizes)
    (zName : Name) (methods : Bool) :
    ∃ m', ((((m.alloc a zName).openFile a .ok methods).setSizes a z).link a) = some m' ∧
      (m'.setRef a ((m'.real a).nRef + 1)).Represents
        ⟨a :: v.pFileList, Function.update v.real a ⟨z, zName, 1⟩⟩ := by
  have hlive : m.links.head.all
      (((m.alloc a zName).openFile a .ok methods).setSizes a z).live := by
    cases hlist : v.pFileList with
    | nil =>
        have hspells := hm.spells
        rw [hlist] at hspells
        have hhead : m.links.head = none := hspells
        rw [hhead]
        rfl
    | cons b l =>
        have hspells := hm.spells
        rw [hlist] at hspells
        have hhead : m.links.head = some b := hspells.1
        have hb : b ∈ m.blocks := by
          rw [hm.mem_blocks, hlist]
          exact List.mem_cons_self
        rw [hhead]
        simp [live, setSizes, openFile, alloc, hb]
  refine ⟨_, if_pos hlive, ?_, ?_, ?_, ?_⟩
  · exact Links.push_spells hm.spells ha
  · intro b hb
    by_cases hba : b = a
    · simp [Memory.setRef, setSizes, openFile, alloc, hba]
    · have hold : b ∈ v.pFileList := (List.mem_cons.mp hb).resolve_left hba
      simp [Memory.setRef, setSizes, openFile, alloc, hba, hm.real b hold]
  · simp [Memory.setRef, setSizes, openFile, alloc, hm.blocks]
  · simp [Memory.setRef, setSizes, openFile, alloc, hm.opened]

/-- The memory after an open that gave its block back is the one before, but
for what the block held. -/
structure Same (m m' : Memory) : Prop where
  links : m'.links = m.links
  blocks : m'.blocks = m.blocks
  opened : m'.opened = m.opened
  records : ∀ b ∈ m.blocks, m'.real b = m.real b

theorem Same.refl (m : Memory) : m.Same m := ⟨rfl, rfl, rfl, fun _ _ => rfl⟩

theorem Same.represents {m' : Memory} (h : m.Same m') (hm : m.Represents v) :
    m'.Represents v where
  spells := by
    rw [h.links]
    exact hm.spells
  real := fun a ha => (h.records a (hm.mem_blocks.mpr ha)).trans (hm.real a ha)
  blocks := h.blocks.trans hm.blocks
  opened := h.opened.trans hm.opened

/-- A block that is allocated, used and given back leaves the rest as it was. -/
theorem Represents.discard (hm : m.Represents v) {a : Nat} (ha : a ∉ m.blocks) (z : Sizes)
    (zName : Name) (rc : Rc) (methods : Bool) :
    m.Same ((((((m.alloc a zName).openFile a rc methods).setSizes a z)).closeFile a).free a) := by
  have hopened : a ∉ m.opened := by
    rw [hm.opened, ← hm.blocks]
    exact ha
  constructor
  · simp only [free, closeFile, setSizes, openFile, alloc]
    split_ifs
    · rfl
    · rfl
  · simp only [free, closeFile, setSizes, openFile, alloc]
    split_ifs
    · exact Finset.erase_insert ha
    · exact Finset.erase_insert ha
  · simp only [free, closeFile, setSizes, openFile, alloc]
    split_ifs
    · exact Finset.erase_insert hopened
    · exact Finset.erase_eq_of_notMem hopened
  · intro b hb
    have hba : b ≠ a := by
      rintro rfl
      exact ha hb
    simp only [free, closeFile, setSizes, openFile, alloc]
    split_ifs
    · simp only [Function.update_of_ne hba]
    · simp only [Function.update_of_ne hba]

section

variable (disk : Disk) (p : FsFile) (zName : Name) (flags : Nat) {malloc : Option Nat}
  (methods : Bool) (io : Outcomes)

/-- How `fsOpen` ends. It binds the handle to a listed record; it lists a new
record; it fails and leaves the memory as it was; or a journal is opened whose
database is not, which fails the assertion. -/
theorem Represents.fsOpen_cases (hm : m.Represents v)
    (hfresh : ∀ a, malloc = some a → a ∉ m.blocks) :
    (∃ a, v.findReal zName (nameLength zName (openType flags)) = some a ∧
      m.fsOpen disk p zName flags malloc methods io =
        some ⟨.ok, m.setRef a ((m.real a).nRef + 1), disk, ⟨true, openType flags, a⟩⟩) ∨
    (v.findReal zName (nameLength zName (openType flags)) = none ∧
      ((openType flags ≠ .database ∧ m.fsOpen disk p zName flags malloc methods io = none) ∨
      (openType flags = .database ∧ malloc = none ∧
        m.fsOpen disk p zName flags malloc methods io =
          some ⟨.nomem, m, disk, ⟨true, openType flags, p.pReal⟩⟩) ∨
      (openType flags = .database ∧ (openReal (disk zName) io).1 = .ok ∧
        ∃ a m', malloc = some a ∧ m.fsOpen disk p zName flags malloc methods io =
          some ⟨.ok, m', Function.update disk zName (openReal (disk zName) io).2.2,
            ⟨true, openType flags, a⟩⟩ ∧
        m'.Represents ⟨a :: v.pFileList,
          Function.update v.real a ⟨(openReal (disk zName) io).2.1, zName, 1⟩⟩) ∨
      (openType flags = .database ∧ (openReal (disk zName) io).1 ≠ .ok ∧
        ∃ a m', malloc = some a ∧ m.fsOpen disk p zName flags malloc methods io =
          some ⟨(openReal (disk zName) io).1, m',
            Function.update disk zName (openReal (disk zName) io).2.2,
            ⟨true, openType flags, p.pReal⟩⟩ ∧ m.Same m'))) := by
  have hfind := hm.findReal zName (nameLength zName (openType flags))
  cases hfound : v.findReal zName (nameLength zName (openType flags)) with
  | some a =>
      rw [hfound] at hfind
      exact Or.inl ⟨a, rfl, by simp only [fsOpen, hfind]⟩
  | none =>
      rw [hfound] at hfind
      refine Or.inr ⟨rfl, ?_⟩
      by_cases htype : openType flags = .database
      · right
        rw [htype] at hfind
        cases hmalloc : malloc with
        | none =>
            exact Or.inl ⟨htype, rfl, by simp only [fsOpen, htype, hfind, ne_eq,
              not_true_eq_false, if_false]⟩
        | some a =>
            have ha := hfresh a hmalloc
            right
            by_cases hrc : (openReal (disk zName) io).1 = .ok
            · have hopen : (io 0).rc = .ok := by
                by_contra hfail
                simp only [openReal, if_pos hfail] at hrc
                exact hfail hrc
              obtain ⟨m', hlink, hnew⟩ := hm.insert (fun h => ha (hm.mem_blocks.mpr h))
                (openReal (disk zName) io).2.1 zName methods
              refine Or.inl ⟨htype, hrc, a, _, rfl, ?_, hnew⟩
              simp only [fsOpen, htype, hfind, ne_eq, not_true_eq_false, if_false, hrc, if_true,
                hopen, hlink, Option.map_some]
            · refine Or.inr ⟨htype, hrc, a, _, rfl, ?_,
                hm.discard ha (openReal (disk zName) io).2.1 zName (io 0).rc methods⟩
              simp only [fsOpen, htype, hfind, ne_eq, not_true_eq_false, if_false, hrc]
      · exact Or.inl ⟨htype, by simp only [fsOpen, hfind, ne_eq, htype, not_false_eq_true,
          if_true]⟩

/-- Opening in memory, with the block that the list-level open takes, is
opening in the list. -/
theorem Represents.fsOpen (hm : m.Represents v) {granted : Bool} :
    Option.Rel (fun x y => x.rc = y.rc ∧ x.memory.Represents y.vfs ∧ x.disk = y.disk ∧
        x.file = y.file)
      (m.fsOpen disk p zName flags (if granted then some v.sqlite3Malloc else none) methods io)
      (SqliteFs.fsOpen v disk p zName flags granted io) := by
  have hfresh : ∀ a, (if granted then some v.sqlite3Malloc else none) = some a → a ∉ m.blocks := by
    intro a ha
    cases granted with
    | false => cases ha
    | true =>
        obtain rfl := Option.some.inj ha
        rw [hm.mem_blocks]
        exact v.sqlite3Malloc_fresh
  rcases hm.fsOpen_cases disk p zName flags methods io hfresh with
    ⟨a, hfound, heq⟩ | ⟨hnone, ⟨htype, heq⟩ | ⟨htype, hmalloc, heq⟩ | ⟨htype, hrc, a, m', hmalloc,
      heq, hnew⟩ | ⟨htype, hrc, a, m', hmalloc, heq, hsame⟩⟩
  · have ha := (FsVfs.findReal_some hfound).1
    rw [heq, hm.real a ha]
    simp only [SqliteFs.fsOpen, hfound]
    exact .some ⟨rfl, hm.setRef a _ ha, rfl, rfl⟩
  · rw [heq]
    simp only [SqliteFs.fsOpen, hnone, ne_eq, htype, not_false_eq_true, if_true]
    exact .none
  · rw [heq]
    cases granted with
    | true => cases hmalloc
    | false =>
        rw [htype] at hnone ⊢
        simp only [SqliteFs.fsOpen, htype, hnone, ne_eq, not_true_eq_false, if_false, if_true]
        exact .some ⟨rfl, hm, rfl, rfl⟩
  · rw [heq]
    cases granted with
    | false => cases hmalloc
    | true =>
        obtain rfl := Option.some.inj hmalloc
        rw [htype] at hnone ⊢
        simp only [SqliteFs.fsOpen, htype, hnone, ne_eq, not_true_eq_false, if_false, hrc, if_true,
          reduceCtorEq]
        exact .some ⟨rfl, hnew, rfl, rfl⟩
  · rw [heq]
    cases granted with
    | false => cases hmalloc
    | true =>
        rw [htype] at hnone ⊢
        simp only [SqliteFs.fsOpen, htype, hnone, ne_eq, not_true_eq_false, if_false, hrc,
          reduceCtorEq]
        exact .some ⟨rfl, hsame.represents hm, rfl, rfl⟩

end

/-- A listed record can be taken out: the link that points to it and its
successor are in blocks that are allocated. -/
theorem Represents.unlink (hm : m.Represents v) {a : Nat} (ha : a ∈ v.pFileList) :
    m.unlink a = some { m with links := m.links.unlink a } := by
  apply if_pos
  constructor
  · rcases hm.spells.prev_mem ha with hback | ⟨b, hb, hback⟩
    · rw [hback]
      rfl
    · rw [hback]
      exact hm.live_iff.mpr hb
  · cases hnext : m.links.next a with
    | none => rfl
    | some b =>
        simp only [Option.all_some]
        exact hm.live_iff.mpr (List.mem_of_mem_tail (hm.spells.next_mem ha hnext))

/-- The list without a record, its file closed and its block given back. -/
theorem Represents.erase (hm : m.Represents v) {a : Nat} (ha : a ∈ v.pFileList) :
    ((({ m with links := m.links.unlink a } : Memory).closeFile a).free a).Represents
      { v with pFileList := v.pFileList.erase a } := by
  have herase : (v.pFileList.erase a).toFinset = v.pFileList.toFinset.erase a := by
    ext b
    rw [List.mem_toFinset, hm.spells.head_nodup.mem_erase_iff, Finset.mem_erase,
      List.mem_toFinset]
  constructor
  · exact Links.unlink_head_spells hm.spells ha
  · exact fun b hb => hm.real b (List.mem_of_mem_erase hb)
  · simp only [free, closeFile, hm.blocks, herase]
  · simp only [free, closeFile, hm.opened, herase]

/-- Closing a handle on a listed record in memory is closing it in the list. -/
theorem Represents.fsClose (hm : m.Represents v) (p : FsFile) (io : Outcomes)
    (hlisted : p.pReal ∈ v.pFileList) :
    Option.Rel (fun x y => x.1 = y.1 ∧ x.2.Represents y.2) (m.fsClose p io)
      (SqliteFs.fsClose v p io) := by
  have hlive : ¬m.live p.pReal = false := by
    rw [Bool.not_eq_false]
    exact hm.live_iff.mpr hlisted
  have href := hm.setRef p.pReal ((v.real p.pReal).nRef - 1) hlisted
  have hopened : p.pReal ∈ (m.setRef p.pReal ((v.real p.pReal).nRef - 1)).opened := by
    rw [href.opened]
    exact List.mem_toFinset.mpr hlisted
  unfold Memory.fsClose SqliteFs.fsClose
  simp only [if_neg hlive, hm.real _ hlisted]
  split_ifs with hneg hzero
  · exact .none
  · rw [href.unlink hlisted]
    exact .some ⟨rfl, href.erase hlisted⟩
  · exact .some ⟨rfl, href⟩

end

end Memory

end SqliteFs
