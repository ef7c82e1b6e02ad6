import SqliteFs.Session

/-!
One database of the VFS seen alone: the sizes in its record, while there is
one, and its parent file. `step_db` says once what any call can do to any
database. Everything below about one database and its journal is derived from
it.
-/

namespace SqliteFs

open Lib

structure Db where
  sizes : Option Sizes
  file : ParentFile

/-- What a call amounts to for one database. -/
inductive Act where
  | skip
  | attach (io : Outcomes)
  | detach
  | write (eType : EType) (io : Outcomes) (zBuf : Bytes) (iAmt iOfst : Int)
  | truncate (eType : EType) (size : Int)
  | sync (eType : EType) (io : Outcomes)
  | delete (io : Outcomes)

namespace Db

/-- A change made through the record, if there is one. -/
def update (d : Db) (f : Sizes → Sizes × ParentFile) : Db :=
  match d.sizes with
  | some z => ⟨some (f z).1, (f z).2⟩
  | none => d

def act (d : Db) : Act → Db
  | .skip => d
  | .attach io =>
    let out := openReal d.file io
    ⟨if out.1 = .ok then some out.2.1 else none, out.2.2⟩
  | .detach => ⟨none, d.file⟩
  | .write eType io zBuf iAmt iOfst =>
    d.update fun z => (fsWrite eType z d.file io zBuf iAmt iOfst).2
  | .truncate eType size => d.update fun z => (fsTruncate eType z size, d.file)
  | .sync eType io => d.update fun z => (z, (fsSync eType z d.file io).2)
  | .delete io => d.update fun z => (deleteReal z d.file io).2

end Db

namespace Sys

/-- The database of the name `n`. -/
def db (s : Sys) (n : Name) : Db where
  sizes := (s.vfs.pFileList.find? fun a => (s.vfs.real a).zName = n).map
    fun a => (s.vfs.real a).toSizes
  file := s.disk n

/-- The act of a call through handle `id` on the database of the name `n`. -/
def onHandle (s : Sys) (id : Nat) (n : Name) (f : Handle → Act) : Act :=
  match s.handle id with
  | some h => if (s.pReal h).zName = n then f h else .skip
  | none => .skip

def actOn (s : Sys) (n : Name) : Call → Act
  | .xOpen _ zName flags malloc io =>
    if s.vfs.findReal zName (nameLength zName (openType flags)) = none ∧ malloc = true ∧
      zName = n then .attach io else .skip
  | .xClose id _ => s.onHandle id n fun h => if (s.pReal h).nRef = 1 then .detach else .skip
  | .xWrite id zBuf iAmt iOfst io =>
    s.onHandle id n fun h => .write h.file.eType io zBuf iAmt iOfst
  | .xTruncate id size => s.onHandle id n fun h => .truncate h.file.eType size
  | .xSync id io => s.onHandle id n fun h => .sync h.file.eType io
  | .xDelete zPath io =>
    match s.vfs.findReal zPath (zPath.length - 8) with
    | some a => if (s.vfs.real a).zName = n then .delete io else .skip
    | none => .skip
  | .stop => .detach
  | _ => .skip

theorem onHandle_cases (s : Sys) (id : Nat) (n : Name) (f : Handle → Act) :
    s.onHandle id n f = .skip ∨
      ∃ h, s.handle id = some h ∧ (s.pReal h).zName = n ∧ s.onHandle id n f = f h := by
  unfold onHandle
  cases hh : s.handle id with
  | none => exact Or.inl rfl
  | some h =>
      by_cases hn : (s.pReal h).zName = n
      · exact Or.inr ⟨h, rfl, hn, if_pos hn⟩
      · exact Or.inl (if_neg hn)

/-- Only opening a database under its own name gives it a record. -/
theorem actOn_eq_attach {s : Sys} {n : Name} {c : Call} {io : Outcomes}
    (hact : s.actOn n c = .attach io) :
    ∃ id flags, c = .xOpen id n flags true io ∧
      s.vfs.findReal n (nameLength n (openType flags)) = none := by
  have hhandle : ∀ id f, (∀ h, f h ≠ .attach io) → s.onHandle id n f ≠ .attach io := by
    intro id f hf heq
    rcases s.onHandle_cases id n f with hskip | ⟨h, -, -, hf'⟩
    · rw [hskip] at heq
      cases heq
    · exact hf h (hf'.symm.trans heq)
  cases c with
  | xOpen id zName flags malloc io' =>
      simp only [actOn] at hact
      split_ifs at hact with hnew
      obtain ⟨hnone, rfl, rfl⟩ := hnew
      cases hact
      exact ⟨id, flags, rfl, hnone⟩
  | xClose id io' =>
      refine absurd hact (hhandle id _ ?_)
      intro h
      split_ifs <;> exact nofun
  | xDelete zPath io' =>
      simp only [actOn] at hact
      split at hact
      · split_ifs at hact
      · cases hact
  | xWrite id zBuf iAmt iOfst io' => exact absurd hact (hhandle id _ fun h => nofun)
  | xTruncate id size => exact absurd hact (hhandle id _ fun h => nofun)
  | xSync id io' => exact absurd hact (hhandle id _ fun h => nofun)
  | _ => cases hact

theorem find_name {v : FsVfs} (hnames : ∀ a ∈ v.pFileList, ∀ b ∈ v.pFileList,
      (v.real a).zName = (v.real b).zName → a = b) {a : Nat} (ha : a ∈ v.pFileList) :
    v.pFileList.find? (fun b => (v.real b).zName = (v.real a).zName) = some a := by
  cases hfind : v.pFileList.find? fun b => (v.real b).zName = (v.real a).zName with
  | none => simpa using List.find?_eq_none.mp hfind a ha
  | some b =>
      have hname : (v.real b).zName = (v.real a).zName := by simpa using List.find?_some hfind
      rw [hnames b (List.mem_of_find?_eq_some hfind) a ha hname]

theorem db_listed {s : Sys} (hwf : s.WellFormed) {a : Nat} (ha : a ∈ s.vfs.pFileList) :
    s.db (s.vfs.real a).zName =
      ⟨some (s.vfs.real a).toSizes, s.disk (s.vfs.real a).zName⟩ := by
  simp only [db, find_name hwf.names ha, Option.map_some]

theorem db_closed {s : Sys} {n : Name} (h : ∀ a ∈ s.vfs.pFileList, (s.vfs.real a).zName ≠ n) :
    s.db n = ⟨none, s.disk n⟩ := by
  have hfind : s.vfs.pFileList.find? (fun a => (s.vfs.real a).zName = n) = none := by
    rw [List.find?_eq_none]
    intro a ha
    simpa using h a ha
  simp only [db, hfind, Option.map_none]

/-- A database is open exactly when some listed record has its name. -/
theorem db_sizes_eq_some {s : Sys} (hwf : s.WellFormed) {n : Name} {z : Sizes} :
    (s.db n).sizes = some z ↔
      ∃ a ∈ s.vfs.pFileList, (s.vfs.real a).zName = n ∧ (s.vfs.real a).toSizes = z := by
  constructor
  · intro h
    obtain ⟨a, hfind, hz⟩ := Option.map_eq_some_iff.mp h
    exact ⟨a, List.mem_of_find?_eq_some hfind, by simpa using List.find?_some hfind, hz⟩
  · rintro ⟨a, ha, rfl, rfl⟩
    rw [db_listed hwf ha]

theorem db_handle {s : Sys} (hwf : s.WellFormed) {h : Handle} (hmem : h ∈ s.handles) :
    s.db (s.pReal h).zName = ⟨some (s.pReal h).toSizes, s.pFile h⟩ :=
  db_listed hwf (hwf.bound h hmem)

theorem db_store {s : Sys} (hwf : s.WellFormed) {a : Nat} (ha : a ∈ s.vfs.pFileList)
    (z : Sizes) (f : ParentFile) (n : Name) :
    (s.store a z f).db n = if (s.vfs.real a).zName = n then ⟨some z, f⟩ else s.db n := by
  split_ifs with hn
  · subst hn
    have hlisted := db_listed (hwf.store a z f) (a := a) ha
    simpa [store, FsVfs.setSizes_toSizes] using hlisted
  · have hne : n ≠ (s.vfs.real a).zName := fun heq => hn heq.symm
    simp only [db, store, FsVfs.setSizes_pFileList, FsVfs.setSizes_zName,
      Function.update_of_ne hne, Db.mk.injEq, and_true]
    refine Option.map_congr ?_
    intro b hb
    have hb' : (s.vfs.real b).zName = n := by simpa using List.find?_some hb
    rw [FsVfs.setSizes_toSizes, if_neg]
    rintro rfl
    exact hn hb'

theorem db_setRef (s : Sys) (a : Nat) (k : Int) (hs : List Handle) (n : Name) :
    (⟨s.vfs.setRef a k, s.disk, hs⟩ : Sys).db n = s.db n := by
  simp [db]

/-- A method that works on the record and the parent file of a handle acts on
the database of that name and on no other. -/
theorem db_store_act {s : Sys} (hwf : s.WellFormed) {a : Nat} (ha : a ∈ s.vfs.pFileList)
    (act : Act) {f : Sizes → ParentFile → Sizes × ParentFile}
    (hact : ∀ d : Db, d.act act = d.update fun z => f z d.file) (n : Name) :
    let pReal := s.vfs.real a
    let out := f pReal.toSizes (s.disk pReal.zName)
    (s.store a out.1 out.2).db n = (s.db n).act (if pReal.zName = n then act else .skip) := by
  intro pReal out
  rw [db_store hwf ha]
  split_ifs with hn
  · subst hn
    rw [hact, db_listed hwf ha]
    rfl
  · rfl

theorem db_open_new {s : Sys} {n zName : Name} {file : ParentFile} {z : Sizes}
    {hs : List Handle} :
    (⟨⟨s.vfs.sqlite3Malloc :: s.vfs.pFileList,
        Function.update s.vfs.real s.vfs.sqlite3Malloc ⟨z, zName, 1⟩⟩,
      Function.update s.disk zName file, hs⟩ : Sys).db n =
      if zName = n then ⟨some z, file⟩ else s.db n := by
  have hold : ∀ b ∈ s.vfs.pFileList, Function.update s.vfs.real s.vfs.sqlite3Malloc
      ⟨z, zName, 1⟩ b = s.vfs.real b := by
    intro b hb
    refine Function.update_of_ne ?_ _ _
    rintro rfl
    exact s.vfs.sqlite3Malloc_fresh hb
  split_ifs with hn
  · subst hn
    simp [db]
  · have hne : n ≠ zName := fun heq => hn heq.symm
    have hfind : s.vfs.pFileList.find? (fun b => (Function.update s.vfs.real
        s.vfs.sqlite3Malloc ⟨z, zName, 1⟩ b).zName = n) =
        s.vfs.pFileList.find? (fun b => (s.vfs.real b).zName = n) := by
      refine List.find?_congr ?_
      intro b hb
      rw [hold b hb]
    simp only [db, Function.update_of_ne hne, Db.mk.injEq, and_true]
    rw [List.find?_cons_of_neg (by simpa using hn), hfind]
    refine Option.map_congr ?_
    intro b hb
    rw [hold b (List.mem_of_find?_eq_some hb)]

/-- Erasing an address that the search would pass over. -/
theorem find?_erase {p : Nat → Bool} {a : Nat} (ha : p a = false) (l : List Nat) :
    (l.erase a).find? p = l.find? p := by
  induction l with
  | nil => rfl
  | cons b l ih =>
      by_cases hb : b = a
      · subst hb
        rw [List.erase_cons_head, List.find?_cons_of_neg (by simp [ha])]
      · rw [List.erase_cons_tail (by simpa using hb), List.find?_cons, List.find?_cons, ih]

theorem db_close {s : Sys} (hwf : s.WellFormed) {h : Handle} (hmem : h ∈ s.handles)
    {io : Outcomes} {rc : Rc} {v : FsVfs} (hclose : fsClose s.vfs h.file io = some (rc, v))
    (hs : List Handle) (n : Name) :
    (⟨v, s.disk, hs⟩ : Sys).db n =
      (s.db n).act (if (s.pReal h).zName = n then
        (if (s.pReal h).nRef = 1 then .detach else .skip) else .skip) := by
  have hlisted := hwf.bound h hmem
  rcases fsClose_cases hclose with ⟨hlast, -, rfl⟩ | ⟨hmore, -, rfl⟩
  · have hlast : (s.pReal h).nRef = 1 := hlast
    rw [if_pos hlast]
    split_ifs with hn
    · subst hn
      have hgone : ∀ a ∈ s.vfs.pFileList.erase h.file.pReal,
          (s.vfs.real a).zName ≠ (s.pReal h).zName := by
        intro a ha heq
        obtain ⟨hne, ha⟩ := (List.Nodup.mem_erase_iff hwf.nodup).mp ha
        exact hne (hwf.names a ha _ hlisted heq)
      rw [db_closed (by simpa using hgone)]
      rfl
    · have hfind : (s.vfs.pFileList.erase h.file.pReal).find?
          (fun a => (s.vfs.real a).zName = n) =
          s.vfs.pFileList.find? (fun a => (s.vfs.real a).zName = n) :=
        find?_erase (by simpa [Sys.pReal] using hn) _
      simp only [db, FsVfs.setRef_zName, FsVfs.setRef_toSizes, hfind, Db.act]
  · have hmore : (s.pReal h).nRef ≠ 1 := hmore.ne'
    rw [if_neg hmore, ite_self]
    simp [db_setRef, Db.act]

/-- What an open does to one database. -/
theorem db_open {s t : Sys} {id : Nat} {zName : Name} {flags : Nat} {malloc : Bool}
    {io : Outcomes} {r : Reply} (hstep : s.step (.xOpen id zName flags malloc io) = some (t, r))
    (n : Name) : t.db n = (s.db n).act (s.actOn n (.xOpen id zName flags malloc io)) := by
  simp only [Sys.step] at hstep
  split_ifs at hstep with hid
  obtain ⟨out, hout, heq⟩ := Option.map_eq_some_iff.mp hstep
  obtain ⟨rfl, -⟩ := Prod.ext_iff.mp heq
  simp only [actOn]
  rcases fsOpen_cases hout with
    ⟨a, hfound, rfl⟩ | ⟨hnone, -, ⟨hmalloc, hrc, rfl⟩ | ⟨hmalloc, hrc, rfl⟩ | ⟨hmalloc, rfl⟩⟩
  · simp [hfound, db_setRef, Db.act]
  · have hnew := findReal_none_name hnone
    simp only [hnone, hmalloc, true_and]
    rw [db_open_new]
    split_ifs with hn
    · subst hn
      simp [Db.act, db_closed hnew, hrc]
    · rfl
  · have hnew := findReal_none_name hnone
    simp only [hnone, hmalloc, true_and, if_neg hrc]
    split_ifs with hn
    · subst hn
      rw [db_closed (by simpa using hnew), db_closed hnew]
      simp [Db.act, hrc]
    · have hne : n ≠ zName := fun heq => hn heq.symm
      simp [db, Db.act, Function.update_of_ne hne]
  · simp [hmalloc, db, Db.act]

/-- What one call does to one database. -/
theorem step_db {s t : Sys} (hwf : s.WellFormed) {c : Call} {r : Reply}
    (hstep : s.step c = some (t, r)) (n : Name) : t.db n = (s.db n).act (s.actOn n c) := by
  have hhandle : ∀ {id h}, s.handle id = some h → h.file.pReal ∈ s.vfs.pFileList :=
    fun hh => hwf.bound _ (handle_eq_some hh).1
  cases c with
  | xOpen id zName flags malloc io => exact db_open hstep n
  | xClose id io =>
      obtain ⟨h, hh, hout⟩ := Option.bind_eq_some_iff.mp hstep
      obtain ⟨out, hclose, heq⟩ := Option.map_eq_some_iff.mp hout
      obtain ⟨rfl, -⟩ := Prod.ext_iff.mp heq
      simp only [actOn, onHandle, hh]
      exact db_close hwf (handle_eq_some hh).1 hclose _ n
  | xRead id zBuf iAmt iOfst io =>
      obtain ⟨h, -, heq⟩ := Option.map_eq_some_iff.mp hstep
      obtain ⟨rfl, -⟩ := Prod.ext_iff.mp heq
      rfl
  | xWrite id zBuf iAmt iOfst io =>
      obtain ⟨h, hh, heq⟩ := Option.map_eq_some_iff.mp hstep
      obtain ⟨rfl, -⟩ := Prod.ext_iff.mp heq
      simp only [actOn, onHandle, hh]
      exact db_store_act hwf (hhandle hh) (.write h.file.eType io zBuf iAmt iOfst)
        (f := fun z f => (fsWrite h.file.eType z f io zBuf iAmt iOfst).2) (fun _ => rfl) n
  | xTruncate id size =>
      obtain ⟨h, hh, heq⟩ := Option.map_eq_some_iff.mp hstep
      obtain ⟨rfl, -⟩ := Prod.ext_iff.mp heq
      simp only [actOn, onHandle, hh]
      exact db_store_act hwf (hhandle hh) (.truncate h.file.eType size)
        (f := fun z f => (fsTruncate h.file.eType z size, f)) (fun _ => rfl) n
  | xSync id io =>
      obtain ⟨h, hh, heq⟩ := Option.map_eq_some_iff.mp hstep
      obtain ⟨rfl, -⟩ := Prod.ext_iff.mp heq
      simp only [actOn, onHandle, hh]
      exact db_store_act hwf (hhandle hh) (.sync h.file.eType io)
        (f := fun z f => (z, (fsSync h.file.eType z f io).2)) (fun _ => rfl) n
  | xFileSize id =>
      obtain ⟨h, -, heq⟩ := Option.map_eq_some_iff.mp hstep
      obtain ⟨rfl, -⟩ := Prod.ext_iff.mp heq
      rfl
  | xDelete zPath io =>
      obtain ⟨out, hdelete, heq⟩ := Option.map_eq_some_iff.mp hstep
      obtain ⟨rfl, -⟩ := Prod.ext_iff.mp heq
      obtain ⟨-, ⟨a, hfound, rfl⟩ | ⟨hfound, rfl⟩⟩ := fsDelete_cases hdelete
      · simp only [actOn, hfound]
        exact db_store_act hwf (FsVfs.findReal_some hfound).1 (.delete io)
          (f := fun z f => (deleteReal z f io).2) (fun _ => rfl) n
      · simp only [actOn, hfound]
        rfl
  | xAccess zPath flags parent =>
      obtain ⟨rfl, -⟩ := Prod.ext_iff.mp (Option.some.inj hstep)
      rfl
  | stop =>
      obtain ⟨rfl, -⟩ := Prod.ext_iff.mp (Option.some.inj hstep)
      rfl

end Sys

end SqliteFs
