import SqliteFs.Projection
import SqliteFs.Regions

/-!
Runs about one database and its journal. All handles are then bound to the one
record, and `step_effect` gives, for every call, what it did to the sizes and
to the parent file and what it answered. The invariants of the following
modules are proved by cases on it.
-/

namespace SqliteFs

open Lib

/-- A call about the database `n` or its journal. -/
def Call.About (n : Name) : Call → Prop
  | .xOpen _ zName flags _ _ =>
    (zName = n ∧ openType flags = .database) ∨
      (zName = n ++ journalSuffix ∧ openType flags = .journal)
  | .xDelete zPath _ => zPath = n ++ journalSuffix
  | _ => True

namespace Sys

/-- Between calls about one database only that database has a record. -/
structure Serves (s : Sys) (n : Name) : Prop where
  wf : s.WellFormed
  only : ∀ a ∈ s.vfs.pFileList, (s.vfs.real a).zName = n

theorem start_serves (disk : Disk) (n : Name) : (start disk).Serves n :=
  ⟨start_wellFormed disk, by simp [start, FsVfs.init]⟩

/-- The sizes asked for by SQLite: writes are not empty and end where the sums
of the code can hold them, files are not truncated to a negative size. -/
def InRange (s : Sys) : Call → Prop
  | .xWrite id _ iAmt iOfst _ => ∀ h, s.handle id = some h → WriteArgs h.file.eType iAmt iOfst
  | .xTruncate _ size => 0 ≤ size
  | _ => True

/-- Whole pages: database writes and truncations at multiples of 512. -/
def PageAligned (s : Sys) : Call → Prop
  | .xWrite id _ iAmt iOfst _ =>
    ∀ h, s.handle id = some h → h.file.eType = .database →
      BLOCKSIZE ∣ iOfst ∧ BLOCKSIZE ∣ iAmt
  | .xTruncate id size =>
    ∀ h, s.handle id = some h → h.file.eType = .database → BLOCKSIZE ∣ size
  | _ => True

/-- After a close some handle is still open, and the process goes on. -/
def StaysOpen (s : Sys) : Call → Prop
  | .xClose id _ => ∃ h ∈ s.handles, h.id ≠ id
  | .stop => False
  | _ => True

end Sys

/-- Every parent call made by this call is carried out. -/
def Call.Ideal : Call → Prop
  | .xOpen _ _ _ _ io => io.Ideal
  | .xClose _ io => io.Ideal
  | .xRead _ _ _ _ io => io.Ideal
  | .xWrite _ _ _ _ io => io.Ideal
  | .xSync _ io => io.Ideal
  | .xDelete _ io => io.Ideal
  | _ => True

/-- `Effect n s c r d`: in state `s` the call `c` answers `r` and leaves the
database `n` as `d`. -/
inductive Effect (n : Name) (s : Sys) : Call → Reply → Db → Prop where
  | attach {id zName flags io r} (hclosed : (s.db n).sizes = none)
      (hrc : r.rc = (openReal (s.disk n) io).1) :
      Effect n s (.xOpen id zName flags true io) r
        ⟨if (openReal (s.disk n) io).1 = .ok then some (openReal (s.disk n) io).2.1 else none,
          (openReal (s.disk n) io).2.2⟩
  | share {id zName flags malloc io r} (hkept : (s.db n).sizes = none → malloc = false) :
      Effect n s (.xOpen id zName flags malloc io) r (s.db n)
  | detach {id io r} (hlast : ∀ h ∈ s.handles, h.id = id) :
      Effect n s (.xClose id io) r ⟨none, s.disk n⟩
  | release {id io r} : Effect n s (.xClose id io) r (s.db n)
  | read {id zBuf iAmt iOfst io r} : Effect n s (.xRead id zBuf iAmt iOfst io) r (s.db n)
  | write {id zBuf iAmt iOfst io r h z} (hh : s.handle id = some h)
      (hsizes : (s.db n).sizes = some z)
      (hrc : r.rc = (fsWrite h.file.eType z (s.disk n) io zBuf iAmt iOfst).1) :
      Effect n s (.xWrite id zBuf iAmt iOfst io) r
        ⟨some (fsWrite h.file.eType z (s.disk n) io zBuf iAmt iOfst).2.1,
          (fsWrite h.file.eType z (s.disk n) io zBuf iAmt iOfst).2.2⟩
  | truncate {id size r h z} (hh : s.handle id = some h) (hsizes : (s.db n).sizes = some z) :
      Effect n s (.xTruncate id size) r ⟨some (fsTruncate h.file.eType z size), s.disk n⟩
  | sync {id io r h z} (hh : s.handle id = some h) (hsizes : (s.db n).sizes = some z)
      (hrc : r.rc = (fsSync h.file.eType z (s.disk n) io).1) :
      Effect n s (.xSync id io) r ⟨some z, (fsSync h.file.eType z (s.disk n) io).2⟩
  | fileSize {id r} : Effect n s (.xFileSize id) r (s.db n)
  | delete {zPath io r z} (hsizes : (s.db n).sizes = some z)
      (hrc : r.rc = (deleteReal z (s.disk n) io).1) :
      Effect n s (.xDelete zPath io) r
        ⟨some (deleteReal z (s.disk n) io).2.1, (deleteReal z (s.disk n) io).2.2⟩
  | deleteClosed {zPath io r} (hclosed : (s.db n).sizes = none) :
      Effect n s (.xDelete zPath io) r (s.db n)
  | access {zPath flags parent r} : Effect n s (.xAccess zPath flags parent) r (s.db n)
  | stop {r} : Effect n s .stop r ⟨none, s.disk n⟩

namespace Sys

variable {s t : Sys} {n : Name}

theorem Serves.handle_name (hs : s.Serves n) {h : Handle} (hmem : h ∈ s.handles) :
    (s.pReal h).zName = n :=
  hs.only _ (hs.wf.bound h hmem)

/-- The record of a handle is that of the database. -/
theorem Serves.handle_db (hs : s.Serves n) {h : Handle} (hmem : h ∈ s.handles) :
    s.db n = ⟨some (s.pReal h).toSizes, s.disk n⟩ ∧ s.pFile h = s.disk n := by
  have hname := hs.handle_name hmem
  have hdb := db_handle hs.wf hmem
  unfold pFile at hdb ⊢
  rw [hname] at hdb ⊢
  exact ⟨hdb, rfl⟩

/-- The search for the database, under its own name or that of its journal,
finds a record as soon as there is one. -/
theorem Serves.findReal_eq_none (hs : s.Serves n) {zName : Name}
    (hname : zName = n ∨ zName = n ++ journalSuffix) :
    s.vfs.findReal zName n.length = none ↔ (s.db n).sizes = none := by
  constructor
  · intro hfind
    cases hsizes : (s.db n).sizes with
    | none => rfl
    | some z =>
        obtain ⟨a, ha, hzName, -⟩ := (db_sizes_eq_some hs.wf).mp hsizes
        refine absurd ?_ (FsVfs.findReal_none hfind a ha)
        rw [hzName]
        rcases hname with rfl | rfl
        · rfl
        · rw [List.take_append_of_le_length (sizeT_natCast n.length).le]
  · intro hclosed
    rw [FsVfs.findReal, List.find?_eq_none]
    intro a ha
    have hopen := (db_sizes_eq_some hs.wf).mpr ⟨a, ha, hs.only a ha, rfl⟩
    rw [hclosed] at hopen
    cases hopen

theorem nameLength_of_about {zName : Name} {flags : Nat}
    (habout : (zName = n ∧ openType flags = .database) ∨
      (zName = n ++ journalSuffix ∧ openType flags = .journal)) :
    nameLength zName (openType flags) = n.length := by
  rcases habout with ⟨rfl, htype⟩ | ⟨rfl, htype⟩
  · simp [nameLength, htype]
  · simp [nameLength, htype, journalSuffix]

theorem Serves.step (hs : s.Serves n) {c : Call} (habout : c.About n) {r : Reply}
    (hstep : s.step c = some (t, r)) : t.Serves n := by
  refine ⟨hs.wf.step hstep, ?_⟩
  have hdb := step_db hs.wf hstep
  intro a ha
  by_contra hne
  have hopen : (t.db (t.vfs.real a).zName).sizes ≠ none := by
    rw [db_listed (hs.wf.step hstep) ha]
    simp
  have hclosed : (s.db (t.vfs.real a).zName).sizes = none := by
    rw [db_closed]
    intro b hb heq
    exact hne (heq.symm.trans (hs.only b hb))
  rw [hdb] at hopen
  -- only an attach gives a record to a database that had none
  cases hact : s.actOn (t.vfs.real a).zName c with
  | attach io =>
      obtain ⟨id, flags, rfl, hnew⟩ := actOn_eq_attach hact
      simp only [Sys.step] at hstep
      split_ifs at hstep with hid
      obtain ⟨out, hout, -⟩ := Option.map_eq_some_iff.mp hstep
      rcases fsOpen_cases hout with ⟨b, hfound, -⟩ | ⟨-, htype, -⟩
      · rw [hnew] at hfound
        cases hfound
      · rcases habout with ⟨hname, -⟩ | ⟨-, hjournal⟩
        · exact hne hname
        · rw [htype] at hjournal
          cases hjournal
  | _ => simp [hact, Db.act, Db.update, hclosed] at hopen

theorem Serves.next (hs : s.Serves n) {c : Call} (habout : c.About n)
    (hnext : s.next c = some t) : t.Serves n := by
  obtain ⟨r, hstep⟩ := next_eq_some.mp hnext
  exact hs.step habout hstep

/-- A record that counts one reference has one handle. -/
theorem Serves.last_handle (hs : s.Serves n) {h : Handle} (hmem : h ∈ s.handles)
    (hlast : (s.pReal h).nRef = 1) : ∀ h' ∈ s.handles, h' = h := by
  have hrefs := hs.wf.refs _ (hs.wf.bound h hmem)
  have hall : s.handles.countP (fun h' => h'.file.pReal = h.file.pReal) = s.handles.length := by
    rw [List.countP_eq_length]
    intro h' hmem'
    have hlisted' := hs.wf.bound h' hmem'
    have hlisted := hs.wf.bound h hmem
    have hsame := hs.wf.names _ hlisted' _ hlisted
      ((hs.only _ hlisted').trans (hs.only _ hlisted).symm)
    simpa using hsame
  have hlength : s.handles.length = 1 := by
    have hone : (s.vfs.real h.file.pReal).nRef = 1 := hlast
    omega
  obtain ⟨x, hx⟩ := List.length_eq_one_iff.mp hlength
  intro h' hmem'
  rw [hx, List.mem_singleton] at hmem hmem'
  rw [hmem', hmem]

theorem Serves.open_effect (hs : s.Serves n) {id : Nat} {zName : Name} {flags : Nat}
    {malloc : Bool} {io : Outcomes} (habout : (Call.xOpen id zName flags malloc io).About n)
    {r : Reply} (hstep : s.step (.xOpen id zName flags malloc io) = some (t, r)) :
    Effect n s (.xOpen id zName flags malloc io) r (t.db n) := by
  rw [step_db hs.wf hstep n]
  simp only [Sys.step] at hstep
  split_ifs at hstep with hid
  obtain ⟨out, hout, heq⟩ := Option.map_eq_some_iff.mp hstep
  obtain ⟨-, rfl⟩ := Prod.ext_iff.mp heq
  simp only [actOn]
  rcases fsOpen_cases hout with ⟨a, hfound, rfl⟩ | ⟨hnone, htype, hnew⟩
  · simp only [hfound, reduceCtorEq, false_and, if_false]
    refine .share ?_
    have hlisted := (FsVfs.findReal_some hfound).1
    have hd := db_listed hs.wf hlisted
    rw [hs.only a hlisted] at hd
    rw [hd]
    intro hclosed
    cases hclosed
  have hname : zName = n := by
    rcases habout with ⟨hname, -⟩ | ⟨-, hjournal⟩
    · exact hname
    · rw [htype] at hjournal
      cases hjournal
  subst hname
  rw [nameLength_of_about habout] at hnone ⊢
  have hclosed := (hs.findReal_eq_none (Or.inl rfl)).mp hnone
  rcases hnew with ⟨rfl, hrc, rfl⟩ | ⟨rfl, -, rfl⟩ | ⟨rfl, rfl⟩
  · simp only [hnone, and_self, if_true]
    exact .attach hclosed hrc.symm
  · simp only [hnone, and_self, if_true]
    exact .attach hclosed rfl
  · simp only [Bool.false_eq_true, false_and, and_false, if_false]
    exact .share fun _ => rfl

theorem Serves.delete_effect (hs : s.Serves n) {zPath : Name} {io : Outcomes}
    (habout : (Call.xDelete zPath io).About n) {r : Reply}
    (hstep : s.step (.xDelete zPath io) = some (t, r)) :
    Effect n s (.xDelete zPath io) r (t.db n) := by
  rw [step_db hs.wf hstep n]
  obtain ⟨out, hdelete, heq⟩ := Option.map_eq_some_iff.mp hstep
  obtain ⟨-, rfl⟩ := Prod.ext_iff.mp heq
  obtain rfl : zPath = n ++ journalSuffix := habout
  have hlength : (((n ++ journalSuffix).length : Nat) : Int) - 8 = n.length := by
    simp [journalSuffix]
  obtain ⟨-, ⟨a, hfound, rfl⟩ | ⟨hfound, rfl⟩⟩ := fsDelete_cases hdelete
  · have hlisted := (FsVfs.findReal_some hfound).1
    have hname := hs.only a hlisted
    have hd := db_listed hs.wf hlisted
    rw [hname] at hd
    simp only [actOn, hfound, if_pos hname, hd, Db.act, Db.update]
    exact .delete (by rw [hd]) (by rw [hname])
  · simp only [actOn, hfound, Db.act]
    rw [hlength] at hfound
    exact .deleteClosed ((hs.findReal_eq_none (Or.inr rfl)).mp hfound)

theorem Serves.onHandle_eq (hs : s.Serves n) {id : Nat} {h : Handle} (hh : s.handle id = some h)
    (f : Handle → Act) : s.onHandle id n f = f h := by
  simp only [onHandle, hh, if_pos (hs.handle_name (handle_eq_some hh).1)]

/-- What each call about the database does to it and answers. -/
theorem step_effect (hs : s.Serves n) {c : Call} (habout : c.About n) {r : Reply}
    (hstep : s.step c = some (t, r)) : Effect n s c r (t.db n) := by
  have hdb := step_db hs.wf hstep n
  cases c with
  | xOpen id zName flags malloc io => exact hs.open_effect habout hstep
  | xDelete zPath io => exact hs.delete_effect habout hstep
  | xClose id io =>
      obtain ⟨h, hh, -⟩ := Option.bind_eq_some_iff.mp hstep
      obtain ⟨hmem, rfl⟩ := handle_eq_some hh
      simp only [hdb, actOn, hs.onHandle_eq hh]
      split_ifs with hlast
      · apply Effect.detach
        intro h' hmem'
        rw [hs.last_handle hmem hlast h' hmem']
      · exact .release
  | xRead id zBuf iAmt iOfst io =>
      rw [hdb]
      exact .read
  | xWrite id zBuf iAmt iOfst io =>
      obtain ⟨h, hh, heq⟩ := Option.map_eq_some_iff.mp hstep
      obtain ⟨-, rfl⟩ := Prod.ext_iff.mp heq
      obtain ⟨hd, hfile⟩ := hs.handle_db (handle_eq_some hh).1
      simp only [hdb, actOn, hs.onHandle_eq hh, hd, Db.act, Db.update]
      exact .write hh (by rw [hd]) (by rw [hfile])
  | xTruncate id size =>
      obtain ⟨h, hh, -⟩ := Option.map_eq_some_iff.mp hstep
      obtain ⟨hd, -⟩ := hs.handle_db (handle_eq_some hh).1
      simp only [hdb, actOn, hs.onHandle_eq hh, hd, Db.act, Db.update]
      exact .truncate hh (by rw [hd])
  | xSync id io =>
      obtain ⟨h, hh, heq⟩ := Option.map_eq_some_iff.mp hstep
      obtain ⟨-, rfl⟩ := Prod.ext_iff.mp heq
      obtain ⟨hd, hfile⟩ := hs.handle_db (handle_eq_some hh).1
      simp only [hdb, actOn, hs.onHandle_eq hh, hd, Db.act, Db.update]
      exact .sync hh (by rw [hd]) (by rw [hfile])
  | xFileSize id =>
      rw [hdb]
      exact .fileSize
  | xAccess zPath flags parent =>
      rw [hdb]
      exact .access
  | stop =>
      rw [hdb]
      exact .stop

theorem Serves.closed_handles (hs : s.Serves n) (hclosed : (s.db n).sizes = none) :
    s.handles = [] := by
  rw [List.eq_nil_iff_forall_not_mem]
  intro h hmem
  rw [(hs.handle_db hmem).1] at hclosed
  cases hclosed

/-- With no handle left there is no record left. -/
theorem Serves.closed_of_handles (hs : s.Serves n) (hnone : s.handles = []) :
    s.vfs.pFileList = [] := by
  rw [List.eq_nil_iff_forall_not_mem]
  intro a ha
  have hrefs := hs.wf.refs a ha
  have hlive := hs.wf.live a ha
  rw [hnone, List.countP_nil] at hrefs
  omega

/-- The first open of a database opens its file and makes a record of it, or
answers why it could not. -/
theorem Serves.open_cases (hs : s.Serves n) (hnone : s.handles = []) {id flags : Nat}
    {malloc : Bool} {io : Outcomes} {r : Reply}
    (hstep : s.step (.xOpen id n flags malloc io) = some (t, r)) :
    (malloc = true ∧ (openReal (s.disk n) io).1 = .ok ∧ r.rc = .ok ∧
      ∃ h, t.handle id = some h ∧ h.file.eType = openType flags ∧
        (t.pReal h).toSizes = (openReal (s.disk n) io).2.1 ∧
        t.disk n = (openReal (s.disk n) io).2.2) ∨
      (malloc = true ∧ (openReal (s.disk n) io).1 ≠ .ok ∧ r.rc = (openReal (s.disk n) io).1) ∨
      (malloc = false ∧ r.rc = .nomem) := by
  have hempty := hs.closed_of_handles hnone
  simp only [Sys.step] at hstep
  split_ifs at hstep with hid
  obtain ⟨out, hout, heq⟩ := Option.map_eq_some_iff.mp hstep
  obtain ⟨rfl, rfl⟩ := Prod.ext_iff.mp heq
  rcases fsOpen_cases hout with ⟨a, hfound, -⟩ | ⟨-, -, hnew⟩
  · have hlisted := (FsVfs.findReal_some hfound).1
    rw [hempty] at hlisted
    cases hlisted
  rcases hnew with ⟨hmalloc, hopened, rfl⟩ | ⟨hmalloc, hfail, rfl⟩ | ⟨hmalloc, rfl⟩
  · refine Or.inl ⟨hmalloc, hopened, rfl,
      ⟨id, dbName n flags, ⟨true, openType flags, s.vfs.sqlite3Malloc⟩⟩, ?_, rfl, ?_, ?_⟩
    · simp [handle]
    · simp [pReal]
    · simp
  · exact Or.inr (Or.inl ⟨hmalloc, hfail, rfl⟩)
  · exact Or.inr (Or.inr ⟨hmalloc, rfl⟩)

/-- The first open of a database whose file opens well. -/
theorem Serves.opened (hs : s.Serves n) (hnone : s.handles = []) {id flags : Nat}
    {io : Outcomes} {r : Reply} (htype : openType flags = .database)
    (hok : (openReal (s.disk n) io).1 = .ok)
    (hstep : s.step (.xOpen id n flags true io) = some (t, r)) :
    r.rc = .ok ∧ ∃ h, t.handle id = some h ∧ h.file.eType = .database ∧
      (t.pReal h).toSizes = (openReal (s.disk n) io).2.1 ∧
      t.disk n = (openReal (s.disk n) io).2.2 := by
  rcases hs.open_cases hnone hstep with ⟨-, -, hrc, h, hh, heType, hrecord⟩ | ⟨-, hfail, -⟩ | hnomem
  · exact ⟨hrc, h, hh, heType.trans htype, hrecord⟩
  · exact absurd hok hfail
  · cases hnomem.1

/-- What every call keeps of the database and a value carried along, every run
about this database keeps. -/
theorem tracked_run {γ : Type*} {update : Sys → Call → Reply → γ → γ}
    {allowed : Sys × γ → Call → Prop} (inv : Db → γ → Prop)
    (habout : ∀ sg c, allowed sg c → c.About n)
    (hkeep : ∀ s g c r d, s.Serves n → inv (s.db n) g → allowed (s, g) c →
      Effect n s c r d → inv d (update s c r g))
    {calls : List Call} {g g' : γ}
    (hrun : Run (tracked Sys.step update) allowed (s, g) calls (t, g'))
    (hs : s.Serves n) (hinv : inv (s.db n) g) : t.Serves n ∧ inv (t.db n) g' := by
  refine hrun.invariant (fun sg => sg.1.Serves n ∧ inv (sg.1.db n) sg.2) ?_ ⟨hs, hinv⟩
  rintro ⟨s, g⟩ c ⟨t, g'⟩ ⟨hs, hinv⟩ hallowed hnext
  obtain ⟨r, hstep, rfl⟩ := tracked_eq_some.mp hnext
  have hc := habout _ c hallowed
  exact ⟨hs.step hc hstep, hkeep s g c r _ hs hinv hallowed (step_effect hs hc hstep)⟩

/-- The same for runs that carry nothing along. -/
theorem next_keeps {allowed : Sys → Call → Prop} (inv : Db → Prop)
    (habout : ∀ s c, allowed s c → c.About n)
    (hkeep : ∀ s c r d, s.Serves n → inv (s.db n) → allowed s c → Effect n s c r d → inv d) :
    ∀ s c t, s.Serves n ∧ inv (s.db n) → allowed s c → s.next c = some t →
      t.Serves n ∧ inv (t.db n) := by
  rintro s c t ⟨hs, hinv⟩ hallowed hnext
  obtain ⟨r, hstep⟩ := next_eq_some.mp hnext
  have hc := habout s c hallowed
  exact ⟨hs.step hc hstep, hkeep s c r _ hs hinv hallowed (step_effect hs hc hstep)⟩

end Sys

/-- The calls that change neither a record nor the medium of an open database. -/
def Call.Passive : Call → Prop
  | .xWrite .. | .xTruncate .. | .xSync .. | .xDelete .. | .stop => False
  | _ => True

/-- The call takes the record of the database away. -/
def Sys.Ends (s : Sys) : Call → Prop
  | .xClose id _ => ∀ h ∈ s.handles, h.id = id
  | .stop => True
  | _ => False

theorem Sys.StaysOpen.not_ends {s : Sys} {c : Call} (h : s.StaysOpen c) : ¬s.Ends c := by
  intro hends
  cases c with
  | xClose id io =>
      obtain ⟨h', hmem, hne⟩ := h
      exact hne (hends h' hmem)
  | stop => exact h
  | _ => exact hends

/-- `closed` relates the parent file of a database without a record to the
value carried along, `inv` the record and the parent file of an open one. -/
def Db.Related {γ : Type*} (closed : ParentFile → γ → Prop)
    (inv : Sizes → ParentFile → γ → Prop) (d : Db) (g : γ) : Prop :=
  match d.sizes with
  | none => closed d.file g
  | some z => inv z d.file g

/-- What has to be shown of the methods for a relation to survive a call. -/
theorem Db.Related.effect {γ : Type*} {g g' : γ} {closed : ParentFile → γ → Prop}
    {inv : Sizes → ParentFile → γ → Prop} {n : Name} {s : Sys} {c : Call} {r : Reply} {d : Db}
    (hs : s.Serves n)
    (hidle : s.handles = [] → closed (s.disk n) g → closed (s.disk n) g')
    (hattach : ∀ id zName flags io, c = .xOpen id zName flags true io →
      (s.db n).sizes = none → closed (s.disk n) g' → (openReal (s.disk n) io).1 = .ok →
      inv (openReal (s.disk n) io).2.1 (openReal (s.disk n) io).2.2 g')
    (hfailed : ∀ io, closed (s.disk n) g' → (openReal (s.disk n) io).1 ≠ .ok →
      closed (openReal (s.disk n) io).2.2 g')
    (hends : s.Ends c → ∀ z, inv z (s.disk n) g → closed (s.disk n) g')
    (hpassive : c.Passive → g' = g)
    (hwrite : ∀ id zBuf iAmt iOfst io h z, c = .xWrite id zBuf iAmt iOfst io →
      s.handle id = some h → (s.db n).sizes = some z →
      r.rc = (fsWrite h.file.eType z (s.disk n) io zBuf iAmt iOfst).1 → inv z (s.disk n) g →
      inv (fsWrite h.file.eType z (s.disk n) io zBuf iAmt iOfst).2.1
        (fsWrite h.file.eType z (s.disk n) io zBuf iAmt iOfst).2.2 g')
    (htruncate : ∀ id size h z, c = .xTruncate id size → s.handle id = some h →
      (s.db n).sizes = some z → inv z (s.disk n) g →
      inv (fsTruncate h.file.eType z size) (s.disk n) g')
    (hsync : ∀ id io h z, c = .xSync id io → s.handle id = some h →
      (s.db n).sizes = some z → inv z (s.disk n) g →
      inv z (fsSync h.file.eType z (s.disk n) io).2 g')
    (hdelete : ∀ zPath io z, c = .xDelete zPath io →
      r.rc = (deleteReal z (s.disk n) io).1 → inv z (s.disk n) g →
      inv (deleteReal z (s.disk n) io).2.1 (deleteReal z (s.disk n) io).2.2 g')
    (hinv : (s.db n).Related closed inv g) (heffect : Effect n s c r d) :
    d.Related closed inv g' := by
  have hsome : ∀ z, (s.db n).sizes = some z → inv z (s.disk n) g := by
    intro z hsizes
    unfold Related at hinv
    rw [hsizes] at hinv
    exact hinv
  have hnone : (s.db n).sizes = none → closed (s.disk n) g' := by
    intro hclosed
    refine hidle (hs.closed_handles hclosed) ?_
    unfold Related at hinv
    rw [hclosed] at hinv
    exact hinv
  have hgone : s.Ends c → closed (s.disk n) g' := by
    intro hc
    cases hsizes : (s.db n).sizes with
    | none => exact hnone hsizes
    | some z => exact hends hc z (hsome z hsizes)
  cases heffect with
  | @attach id zName flags io r hclosed hrc =>
      by_cases hok : (openReal (s.disk n) io).1 = .ok
      · simp only [Related, if_pos hok]
        exact hattach id zName flags io rfl hclosed (hnone hclosed) hok
      · simp only [Related, if_neg hok]
        exact hfailed io (hnone hclosed) hok
  | detach hlast => exact hgone hlast
  | stop => exact hgone trivial
  | write hh hsizes hrc => exact hwrite _ _ _ _ _ _ _ rfl hh hsizes hrc (hsome _ hsizes)
  | truncate hh hsizes => exact htruncate _ _ _ _ rfl hh hsizes (hsome _ hsizes)
  | sync hh hsizes hrc => exact hsync _ _ _ _ rfl hh hsizes (hsome _ hsizes)
  | delete hsizes hrc => exact hdelete _ _ _ rfl hrc (hsome _ hsizes)
  | deleteClosed hclosed =>
      unfold Related
      rw [hclosed]
      exact hnone hclosed
  | share => rwa [hpassive trivial]
  | release => rwa [hpassive trivial]
  | read => rwa [hpassive trivial]
  | fileSize => rwa [hpassive trivial]
  | access => rwa [hpassive trivial]

/-- A session: the database before its first open is an empty file, and it is
not closed again. -/
abbrev Db.Session {γ : Type*} (g₀ : γ) (inv : Sizes → ParentFile → γ → Prop) (d : Db) (g : γ) :
    Prop :=
  d.Related (fun f g => f.size = 0 ∧ g = g₀) inv g

/-- A relation between the record and the parent file that holds of a blob
just laid out and that every method keeps holds for as long as the database
stays open. -/
theorem Db.Session.effect {γ : Type*} {g₀ g g' : γ} {inv : Sizes → ParentFile → γ → Prop}
    {n : Name} {s : Sys} {c : Call} {r : Reply} {d : Db} (hs : s.Serves n)
    (hopen : s.StaysOpen c) (hfresh : ∀ f : ParentFile, f.size = 0 →
      inv ⟨0, 0, BLOBSIZE⟩ (f.put (fun _ => 0) (BLOBSIZE - 1) 1) g₀)
    (hidle : s.handles = [] → g = g₀ → g' = g₀) (hpassive : c.Passive → g' = g)
    (hwrite : ∀ id zBuf iAmt iOfst io h z, c = .xWrite id zBuf iAmt iOfst io →
      s.handle id = some h → (s.db n).sizes = some z →
      r.rc = (fsWrite h.file.eType z (s.disk n) io zBuf iAmt iOfst).1 → inv z (s.disk n) g →
      inv (fsWrite h.file.eType z (s.disk n) io zBuf iAmt iOfst).2.1
        (fsWrite h.file.eType z (s.disk n) io zBuf iAmt iOfst).2.2 g')
    (htruncate : ∀ id size h z, c = .xTruncate id size → s.handle id = some h →
      (s.db n).sizes = some z → inv z (s.disk n) g →
      inv (fsTruncate h.file.eType z size) (s.disk n) g')
    (hsync : ∀ id io h z, c = .xSync id io → s.handle id = some h →
      inv z (s.disk n) g → inv z (fsSync h.file.eType z (s.disk n) io).2 g')
    (hdelete : ∀ zPath io z, c = .xDelete zPath io →
      r.rc = (deleteReal z (s.disk n) io).1 → inv z (s.disk n) g →
      inv (deleteReal z (s.disk n) io).2.1 (deleteReal z (s.disk n) io).2.2 g')
    (hinv : (s.db n).Session g₀ inv g) (heffect : Effect n s c r d) : d.Session g₀ inv g' := by
  refine Db.Related.effect hs ?_ ?_ ?_ ?_ hpassive hwrite htruncate
    (fun id io h z hc hh _ => hsync id io h z hc hh) hdelete hinv heffect
  · exact fun hnone hclosed => ⟨hclosed.1, hidle hnone hclosed.2⟩
  · rintro id zName flags io - - ⟨hsize, rfl⟩ hok
    rcases openReal_cases _ io (Or.inl hsize) (by omega) with
      ⟨-, heq⟩ | ⟨hne, -⟩ | ⟨hfail, -⟩
    · rw [heq]
      exact hfresh _ hsize
    · exact absurd hsize hne
    · exact absurd hok hfail
  · rintro io ⟨hsize, hg⟩ hfail
    rcases openReal_cases _ io (Or.inl hsize) (by omega) with
      ⟨-, heq⟩ | ⟨hne, -⟩ | ⟨-, hkept, -⟩
    · rw [heq] at hfail
      exact absurd rfl hfail
    · exact absurd hsize hne
    · exact ⟨hkept.trans hsize, hg⟩
  · exact fun hends => absurd hends hopen.not_ends

/-- In a session the relation holds for the record of every open handle. -/
theorem Sys.Serves.session_handle {γ : Type*} {g₀ g : γ} {inv : Sizes → ParentFile → γ → Prop}
    {s : Sys} {n : Name} (hs : s.Serves n) (hsession : (s.db n).Session g₀ inv g) {h : Handle}
    (hmem : h ∈ s.handles) : inv (s.pReal h).toSizes (s.disk n) g := by
  rw [(hs.handle_db hmem).1] at hsession
  exact hsession

/-- A write through a handle of the database. -/
theorem Sys.Serves.write_step {s : Sys} {n : Name} (hs : s.Serves n) {id : Nat} {h : Handle}
    (hh : s.handle id = some h) (zBuf : Bytes) (iAmt iOfst : Int) (io : Outcomes) :
    ∃ t r, s.step (.xWrite id zBuf iAmt iOfst io) = some (t, r) ∧
      let out := fsWrite h.file.eType (s.pReal h).toSizes (s.disk n) io zBuf iAmt iOfst
      r.rc = out.1 ∧ t.db n = ⟨some out.2.1, out.2.2⟩ := by
  have hmem := (handle_eq_some hh).1
  have hwrite : s.step (.xWrite id zBuf iAmt iOfst io) ≠ none := by
    simp only [Sys.step, hh, Option.map_some]
    exact Option.some_ne_none _
  obtain ⟨⟨t, r⟩, hstep⟩ := Option.ne_none_iff_exists'.mp hwrite
  refine ⟨t, r, hstep, ?_⟩
  have heffect := step_effect hs (c := .xWrite id zBuf iAmt iOfst io) trivial hstep
  have hd := (hs.handle_db hmem).1
  generalize t.db n = d at heffect ⊢
  cases heffect with
  | @write _ _ _ _ _ _ h' z hh' hsizes hrc =>
      obtain rfl := Option.some.inj (hh.symm.trans hh')
      rw [hd] at hsizes
      obtain rfl := Option.some.inj hsizes
      exact ⟨hrc, rfl⟩

/-- The same for the record of the handle, which stays bound to it. -/
theorem Sys.Serves.write_handle {s t : Sys} {n : Name} (hs : s.Serves n) {id : Nat} {h : Handle}
    (hh : s.handle id = some h) {zBuf : Bytes} {iAmt iOfst : Int} {io : Outcomes} {r : Reply}
    (hstep : s.step (.xWrite id zBuf iAmt iOfst io) = some (t, r)) :
    let out := fsWrite h.file.eType (s.pReal h).toSizes (s.disk n) io zBuf iAmt iOfst
    r.rc = out.1 ∧ (t.pReal h).toSizes = out.2.1 ∧ t.disk n = out.2.2 := by
  obtain ⟨t', r', hstep', hrc, hdb⟩ := hs.write_step hh zBuf iAmt iOfst io
  obtain ⟨rfl, rfl⟩ := Prod.ext_iff.mp (Option.some.inj (hstep.symm.trans hstep'))
  have ht : t.Serves n := hs.step (c := .xWrite id zBuf iAmt iOfst io) trivial hstep
  have hhandles : t.handles = s.handles := by
    obtain ⟨h', -, heq⟩ := Option.map_eq_some_iff.mp hstep
    obtain ⟨rfl, -⟩ := Prod.ext_iff.mp heq
    rfl
  have hmem : h ∈ t.handles := by
    rw [hhandles]
    exact (handle_eq_some hh).1
  rw [(ht.handle_db hmem).1] at hdb
  exact ⟨hrc, Option.some.inj (congrArg Db.sizes hdb), congrArg Db.file hdb⟩

/-- The calls about a database that is opened on an empty file and stays open. -/
structure Sys.SessionCall (n : Name) (s : Sys) (c : Call) : Prop where
  about : c.About n
  inRange : s.InRange c
  staysOpen : s.StaysOpen c

/-- While the database stays open its record accounts for the blob. -/
def Sys.InAccount (n : Name) (s : Sys) : Prop :=
  s.Serves n ∧ (s.db n).Session () (fun z f _ => Account z f ∧ z.nBlob = BLOBSIZE) ()

theorem Sys.start_inAccount {n : Name} {disk : Disk} (hfresh : (disk n).size = 0) :
    (Sys.start disk).InAccount n :=
  ⟨Sys.start_serves disk n, hfresh, rfl⟩

theorem Sys.InAccount.next {n : Name} {s t : Sys} {c : Call} (hs : s.InAccount n)
    (hcall : s.SessionCall n c) (hnext : s.next c = some t) : t.InAccount n := by
  obtain ⟨r, hstep⟩ := next_eq_some.mp hnext
  refine ⟨hs.1.step hcall.about hstep, ?_⟩
  apply Db.Session.effect hs.1 hcall.staysOpen (g := ()) ?_ (fun _ _ => rfl) (fun _ => rfl)
    ?_ ?_ ?_ ?_ hs.2 (step_effect hs.1 hcall.about hstep)
  · exact fun f hsize => ⟨Account.fresh hsize, rfl⟩
  · rintro id zBuf iAmt iOfst io h z rfl hh - - ⟨hacc, hblob⟩
    obtain ⟨hafter, hkept⟩ := hacc.write io zBuf (hcall.inRange h hh)
    exact ⟨hafter, hkept.trans hblob⟩
  · rintro id size h z rfl hh - ⟨hacc, hblob⟩
    obtain ⟨hafter, hkept⟩ := hacc.truncate h.file.eType hcall.inRange
    exact ⟨hafter, hkept.trans hblob⟩
  · rintro id io h z rfl hh ⟨hacc, hblob⟩
    exact ⟨hacc.sync, hblob⟩
  · rintro zPath io z rfl - ⟨hacc, hblob⟩
    obtain ⟨hafter, hkept, -⟩ := hacc.delete io
    exact ⟨hafter, hkept.trans hblob⟩

theorem Sys.InAccount.handle {n : Name} {s : Sys} (hs : s.InAccount n) {h : Handle}
    (hmem : h ∈ s.handles) :
    Account (s.pReal h).toSizes (s.disk n) ∧ (s.pReal h).nBlob = BLOBSIZE :=
  hs.1.session_handle hs.2 hmem

theorem account_run {n : Name} {disk : Disk} {calls : List Call} {s : Sys}
    (hfresh : (disk n).size = 0)
    (hrun : Run Sys.next (Sys.SessionCall n) (Sys.start disk) calls s) : s.InAccount n :=
  hrun.invariant (Sys.InAccount n) (fun _ _ _ hs hcall hnext => hs.next hcall hnext)
    (Sys.start_inAccount hfresh)

end SqliteFs
