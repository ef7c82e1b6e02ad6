import SqliteFs.Projection
import SqliteFs.Lib.FirstMatch

/-!
Several databases at once. `fsOpen`, `fsDelete` and `fsAccess` look for the
record of a database by comparing as many bytes as the name they are given has,
so a record whose name goes on after that passes for the one looked for. In
runs where no such record comes first, every handle is bound to the record of
its own database and no call touches another database.
-/

namespace SqliteFs

open Lib

namespace FsVfs

variable {v : FsVfs} {m zName : Name}

/-- The record of exactly this name. -/
def recordOf (v : FsVfs) (m : Name) : Option Nat :=
  v.pFileList.find? fun a => decide ((v.real a).zName = m)

/-- A record whose name properly continues `m` is listed, and none of the name
`m` before it. -/
def Shadowed (v : FsVfs) (m : Name) : Prop :=
  Hidden (fun a => decide (m <+: (v.real a).zName)) (fun a => decide ((v.real a).zName = m))
    v.pFileList

instance (v : FsVfs) (m : Name) : Decidable (v.Shadowed m) :=
  decidableHidden _ _ _

/-- The search for the name `m`, given as itself or as that of its journal. -/
theorem findReal_named (hname : zName = m ∨ zName = m ++ journalSuffix) :
    v.findReal zName m.length = v.pFileList.find? fun a => decide (m <+: (v.real a).zName) := by
  have htake : zName.take m.length = m := by
    rcases hname with rfl | rfl
    · exact List.take_length
    · exact List.take_left
  unfold findReal
  congr 1
  funext a
  simp only [sizeT_natCast, strncmp_eq_zero_iff, htake, List.prefix_iff_eq_take]
  exact decide_eq_decide.mpr eq_comm

/-- The search finds the record of the name exactly when it is not shadowed. -/
theorem findReal_eq_recordOf_iff (hname : zName = m ∨ zName = m ++ journalSuffix) :
    v.findReal zName m.length = v.recordOf m ↔ ¬v.Shadowed m := by
  rw [findReal_named hname]
  refine find?_coarse_iff ?_ _
  intro a ha
  simp only [decide_eq_true_eq] at ha ⊢
  rw [ha]

theorem recordOf_some {a : Nat} (h : v.recordOf m = some a) :
    a ∈ v.pFileList ∧ (v.real a).zName = m :=
  ⟨List.mem_of_find?_eq_some h, by simpa using List.find?_some h⟩

end FsVfs

theorem Sys.db_recordOf (s : Sys) (m : Name) :
    (s.db m).sizes = (s.vfs.recordOf m).map fun a => (s.vfs.real a).toSizes := rfl

/-- A name is passed as that of a journal only if it is one. -/
def Call.Named : Call → Prop
  | .xOpen _ zName flags _ _ => openType flags = .journal → ∃ m, zName = m ++ journalSuffix
  | _ => True

/-- What `fsAccess` takes for the name of a journal. -/
def isJournal (zPath : Name) : Prop :=
  zPath.length > 8 ∧ zPath.drop (zPath.length - 8) = journalSuffix

instance (zPath : Name) : Decidable (isJournal zPath) := by
  unfold isJournal
  infer_instance

/-- The name of the database that a call looks for in the list. -/
def Call.looksFor : Call → Option Name
  | .xOpen _ zName flags _ _ => some (Sys.dbName zName flags)
  | .xDelete zPath _ => some (zPath.take (zPath.length - 8))
  | .xAccess zPath flags _ =>
    if flags = SQLITE_ACCESS_EXISTS then
      some (if isJournal zPath then zPath.take (zPath.length - 8) else zPath)
    else none
  | _ => none

/-- A call that SQLite makes and that finds the record it looks for. -/
structure Sys.ExactCall (s : Sys) (c : Call) : Prop where
  named : c.Named
  exact : ∀ m, c.looksFor = some m → ¬s.vfs.Shadowed m

/-- Every handle is bound to the record of its own database. -/
structure Sys.Bound (s : Sys) : Prop where
  wf : s.WellFormed
  own : ∀ h ∈ s.handles, (s.pReal h).zName = h.zDb

theorem Sys.start_bound (disk : Disk) : (Sys.start disk).Bound :=
  ⟨Sys.start_wellFormed disk, fun _ hmem => nomatch hmem⟩

/-- The search of an open, in terms of the name of the database. -/
theorem nameLength_named {id flags : Nat} {zName : Name} {malloc : Bool} {io : Outcomes}
    (hnamed : (Call.xOpen id zName flags malloc io).Named) :
    nameLength zName (openType flags) = (Sys.dbName zName flags).length ∧
      (zName = Sys.dbName zName flags ∨ zName = Sys.dbName zName flags ++ journalSuffix) := by
  unfold nameLength Sys.dbName
  cases htype : openType flags with
  | database => simp
  | journal =>
      obtain ⟨m, rfl⟩ := hnamed htype
      simp [journalSuffix]

theorem isJournal_append {m : Name} (hne : m ≠ []) :
    isJournal (m ++ journalSuffix) ∧
      (m ++ journalSuffix).take ((m ++ journalSuffix).length - 8) = m := by
  have hpos : 0 < m.length := List.length_pos_iff.mpr hne
  simp [isJournal, journalSuffix, hpos]

theorem fsAccess_journal {v : FsVfs} {m : Name} {parent : Rc × Int} (hne : m ≠ []) :
    (fsAccess v (m ++ journalSuffix) SQLITE_ACCESS_EXISTS parent).2 =
      ((v.findReal (m ++ journalSuffix) m.length).elim 0 fun a =>
        if 0 < (v.real a).nJournal then 1 else 0) := by
  have hjournal := (isJournal_append hne).1
  have hlength : (((m ++ journalSuffix).length : Nat) : Int) - 8 = m.length := by
    simp [journalSuffix]
  unfold isJournal at hjournal
  simp only [fsAccess, hjournal, hlength, ne_eq, not_true_eq_false, and_self, if_true, if_false,
    false_or, gt_iff_lt]
  cases v.findReal (m ++ journalSuffix) m.length with
  | none => rfl
  | some a => rfl

theorem fsAccess_database {v : FsVfs} {zPath : Name} {parent : Rc × Int}
    (hnot : ¬isJournal zPath) :
    (fsAccess v zPath SQLITE_ACCESS_EXISTS parent).2 =
      ((v.findReal zPath zPath.length).elim 0 fun _ => 1) := by
  unfold isJournal at hnot
  simp only [fsAccess, hnot, ne_eq, not_true_eq_false, not_false_eq_true, true_or, if_true,
    if_false]
  cases v.findReal zPath zPath.length with
  | none => rfl
  | some a => rfl

/-- A path that passes the assertion of `fsDelete` is that of a journal. -/
theorem fsDelete_named {v v' : FsVfs} {disk disk' : Disk} {zPath : Name} {io : Outcomes} {rc : Rc}
    (h : fsDelete v disk zPath io = some (rc, v', disk')) :
    zPath = zPath.take (zPath.length - 8) ++ journalSuffix ∧
      ((zPath.length : Nat) : Int) - 8 = (zPath.take (zPath.length - 8)).length := by
  obtain ⟨⟨hlength, hsuffix⟩, -⟩ := Sys.fsDelete_cases h
  have hnat : ((zPath.length : Int) - 8).toNat = zPath.length - 8 := by omega
  rw [hnat] at hsuffix
  constructor
  · rw [← hsuffix, List.take_append_drop]
  · rw [List.length_take]
    omega

namespace Sys

variable {s t : Sys} {c : Call} {r : Reply}

/-- The record an open finds is that of its database, and it finds one if
there is one. -/
theorem ExactCall.findReal_open {id flags : Nat} {zName : Name} {malloc : Bool} {io : Outcomes}
    (hcall : s.ExactCall (.xOpen id zName flags malloc io)) :
    s.vfs.findReal zName (nameLength zName (openType flags)) =
      s.vfs.recordOf (dbName zName flags) := by
  obtain ⟨hlength, hname⟩ := nameLength_named hcall.named
  rw [hlength]
  exact (FsVfs.findReal_eq_recordOf_iff hname).mpr (hcall.exact _ rfl)

theorem ExactCall.findReal_delete {zPath : Name} {io : Outcomes}
    (hcall : s.ExactCall (.xDelete zPath io)) (hstep : s.step (.xDelete zPath io) = some (t, r)) :
    s.vfs.findReal zPath (zPath.length - 8) =
      s.vfs.recordOf (zPath.take (zPath.length - 8)) := by
  obtain ⟨out, hdelete, -⟩ := Option.map_eq_some_iff.mp hstep
  obtain ⟨hname, hlength⟩ := fsDelete_named hdelete
  rw [hlength]
  exact (FsVfs.findReal_eq_recordOf_iff (Or.inr hname)).mpr (hcall.exact _ rfl)

/-- A method of a handle changes neither the names of the records nor the handles. -/
theorem Bound.store (hb : s.Bound) (a : Nat) (z : Sizes) (f : ParentFile) :
    (s.store a z f).Bound :=
  ⟨hb.wf.store a z f, by simpa [Sys.pReal, Sys.store] using hb.own⟩

theorem Bound.xOpen (hb : s.Bound) {id flags : Nat} {zName : Name} {malloc : Bool} {io : Outcomes}
    (hcall : s.ExactCall (.xOpen id zName flags malloc io))
    (hstep : s.step (.xOpen id zName flags malloc io) = some (t, r)) :
    ∀ h ∈ t.handles, (t.pReal h).zName = h.zDb := by
  have hfind := hcall.findReal_open
  have hnamed := (nameLength_named hcall.named).2
  simp only [Sys.step] at hstep
  split_ifs at hstep with hid
  obtain ⟨out, hout, heq⟩ := Option.map_eq_some_iff.mp hstep
  obtain ⟨rfl, -⟩ := Prod.ext_iff.mp heq
  rcases fsOpen_cases hout with
    ⟨a, hfound, rfl⟩ | ⟨-, htype, ⟨-, -, rfl⟩ | ⟨-, hrc, rfl⟩ | ⟨-, rfl⟩⟩
  · rw [hfind] at hfound
    intro h hmem
    rcases List.mem_cons.mp hmem with rfl | hold
    · simpa [Sys.pReal] using (FsVfs.recordOf_some hfound).2
    · simpa [Sys.pReal] using hb.own h hold
  · intro h hmem
    rcases List.mem_cons.mp hmem with rfl | hold
    · simp [Sys.pReal, dbName, htype]
    · have hother : h.file.pReal ≠ s.vfs.sqlite3Malloc := by
        intro heq
        exact s.vfs.sqlite3Malloc_fresh (heq ▸ hb.wf.bound h hold)
      simpa [Sys.pReal, Function.update_of_ne hother] using hb.own h hold
  · simp only [if_neg hrc]
    exact hb.own
  · exact hb.own

theorem Bound.step (hb : s.Bound) (hcall : s.ExactCall c) (hstep : s.step c = some (t, r)) :
    t.Bound := by
  refine ⟨hb.wf.step hstep, ?_⟩
  cases c with
  | xOpen id zName flags malloc io => exact hb.xOpen hcall hstep
  | xClose id io =>
      obtain ⟨h, hh, hout⟩ := Option.bind_eq_some_iff.mp hstep
      obtain ⟨out, hclose, heq⟩ := Option.map_eq_some_iff.mp hout
      obtain ⟨rfl, -⟩ := Prod.ext_iff.mp heq
      intro h' hmem
      have hown := hb.own h' (List.mem_of_mem_filter hmem)
      rcases fsClose_cases hclose with ⟨-, -, hv⟩ | ⟨-, -, hv⟩
      · simpa [Sys.pReal, hv] using hown
      · simpa [Sys.pReal, hv] using hown
  | xRead | xFileSize =>
      obtain ⟨h, -, heq⟩ := Option.map_eq_some_iff.mp hstep
      obtain ⟨rfl, -⟩ := Prod.ext_iff.mp heq
      exact hb.own
  | xWrite | xTruncate | xSync =>
      obtain ⟨h, -, heq⟩ := Option.map_eq_some_iff.mp hstep
      obtain ⟨rfl, -⟩ := Prod.ext_iff.mp heq
      exact (hb.store _ _ _).own
  | xDelete zPath io =>
      obtain ⟨out, hdelete, heq⟩ := Option.map_eq_some_iff.mp hstep
      obtain ⟨rfl, -⟩ := Prod.ext_iff.mp heq
      obtain ⟨-, ⟨a, -, rfl⟩ | ⟨-, rfl⟩⟩ := fsDelete_cases hdelete
      · exact (hb.store _ _ _).own
      · exact hb.own
  | xAccess zPath flags parent =>
      obtain ⟨rfl, -⟩ := Prod.ext_iff.mp (Option.some.inj hstep)
      exact hb.own
  | stop =>
      obtain ⟨rfl, -⟩ := Prod.ext_iff.mp (Option.some.inj hstep)
      intro h hmem
      cases hmem

/-- The database that a call is meant for. -/
def subject (s : Sys) : Call → Option Name
  | .xOpen _ zName flags _ _ => some (dbName zName flags)
  | .xDelete zPath _ => some (zPath.take (zPath.length - 8))
  | .xClose id _ | .xRead id _ _ _ _ | .xWrite id _ _ _ _ | .xTruncate id _ | .xSync id _
  | .xFileSize id => (s.handle id).map Handle.zDb
  | .xAccess .. | .stop => none

/-- A call meant for another database does nothing to this one. -/
theorem Bound.frame (hb : s.Bound) (hcall : s.ExactCall c) (hstep : s.step c = some (t, r))
    (hgoes : c ≠ .stop) {n : Name} (hother : s.subject c ≠ some n) : t.db n = s.db n := by
  rw [step_db hb.wf hstep n]
  have hhandle : ∀ id f, (s.handle id).map Handle.zDb ≠ some n → s.onHandle id n f = .skip := by
    intro id f hne
    rcases s.onHandle_cases id n f with hskip | ⟨h, hh, hname, -⟩
    · exact hskip
    · rw [hb.own h (handle_eq_some hh).1] at hname
      rw [hh] at hne
      exact absurd (congrArg some hname) hne
  have hskip : s.actOn n c = .skip := by
    cases c with
    | xOpen id zName flags malloc io =>
        simp only [actOn]
        split_ifs with hnew
        · obtain ⟨hnone, -, rfl⟩ := hnew
          simp only [Sys.step] at hstep
          split_ifs at hstep with hid
          obtain ⟨out, hout, -⟩ := Option.map_eq_some_iff.mp hstep
          rcases fsOpen_cases hout with ⟨a, hfound, -⟩ | ⟨-, htype, -⟩
          · rw [hnone] at hfound
            cases hfound
          · exact absurd (by simp [subject, dbName, htype]) hother
        · rfl
    | xDelete zPath io =>
        simp only [actOn, hcall.findReal_delete hstep]
        split
        · next a hfound =>
            rw [(FsVfs.recordOf_some hfound).2, if_neg]
            exact fun heq => hother (congrArg some heq)
        · rfl
    | stop => exact absurd rfl hgoes
    | xRead | xFileSize | xAccess => rfl
    | xClose id | xWrite id | xTruncate id | xSync id => exact hhandle id _ hother
  rw [hskip]
  rfl

/-- A successful open binds the handle to the record of its database, to a new
one if there was none. -/
theorem ExactCall.opened {id flags : Nat} {zName : Name} {malloc : Bool}
    {io : Outcomes} (hcall : s.ExactCall (.xOpen id zName flags malloc io))
    (hstep : s.step (.xOpen id zName flags malloc io) = some (t, r)) (hrc : r.rc = .ok) :
    ∃ h, t.handle id = some h ∧ h.zDb = dbName zName flags ∧
      (∀ a, s.vfs.recordOf (dbName zName flags) = some a → h.file.pReal = a) ∧
      (s.vfs.recordOf (dbName zName flags) = none → h.file.pReal ∉ s.vfs.pFileList) := by
  have hfind := hcall.findReal_open
  simp only [Sys.step] at hstep
  split_ifs at hstep with hid
  obtain ⟨out, hout, heq⟩ := Option.map_eq_some_iff.mp hstep
  obtain ⟨rfl, rfl⟩ := Prod.ext_iff.mp heq
  rw [← hfind]
  rcases fsOpen_cases hout with ⟨a, hfound, rfl⟩ | ⟨hnone, -, hnew⟩
  · refine ⟨⟨id, dbName zName flags, ⟨true, openType flags, a⟩⟩, by simp [handle], rfl, ?_, ?_⟩
    · intro b hb'
      exact Option.some.inj (hfound.symm.trans hb')
    · intro hnone
      rw [hnone] at hfound
      cases hfound
  rcases hnew with ⟨-, -, rfl⟩ | ⟨-, hfail, rfl⟩ | ⟨-, rfl⟩
  · refine ⟨⟨id, dbName zName flags, ⟨true, openType flags, s.vfs.sqlite3Malloc⟩⟩,
      by simp [handle], rfl, ?_, fun _ => s.vfs.sqlite3Malloc_fresh⟩
    intro a ha
    rw [hnone] at ha
    cases ha
  · exact absurd hrc hfail
  · cases hrc

/-- Deleting a journal acts on the database it belongs to. -/
theorem Bound.deleted (hb : s.Bound) {m : Name} {io : Outcomes}
    (hcall : s.ExactCall (.xDelete (m ++ journalSuffix) io))
    (hstep : s.step (.xDelete (m ++ journalSuffix) io) = some (t, r)) :
    t.db m = (s.db m).act (.delete io) := by
  have hname : (m ++ journalSuffix).take ((m ++ journalSuffix).length - 8) = m := by
    simp [journalSuffix]
  have hfind := hcall.findReal_delete hstep
  rw [hname] at hfind
  rw [step_db hb.wf hstep m]
  simp only [actOn, hfind]
  cases hrecord : s.vfs.recordOf m with
  | some a => simp only [(FsVfs.recordOf_some hrecord).2, if_true]
  | none =>
      have hclosed : (s.db m).sizes = none := by rw [db_recordOf, hrecord, Option.map_none]
      simp only [Db.act, Db.update, hclosed]

/-- Asking whether a file exists is answered from the record of its database. -/
theorem ExactCall.access {zPath : Name} {parent : Rc × Int}
    (hcall : s.ExactCall (.xAccess zPath SQLITE_ACCESS_EXISTS parent))
    (hstep : s.step (.xAccess zPath SQLITE_ACCESS_EXISTS parent) = some (t, r)) :
    (∀ m, m ≠ [] → zPath = m ++ journalSuffix →
        (r.out = 1 ↔ ∃ z, (s.db m).sizes = some z ∧ 0 < z.nJournal)) ∧
      (¬isJournal zPath → (r.out = 1 ↔ ∃ z, (s.db zPath).sizes = some z)) := by
  have hexact := hcall.exact _ rfl
  have hout : (fsAccess s.vfs zPath SQLITE_ACCESS_EXISTS parent).2 = r.out := by
    rw [← (Prod.mk.inj (Option.some.inj hstep)).2]
  rw [← hout]
  constructor
  · rintro m hne rfl
    obtain ⟨hjournal, hname⟩ := isJournal_append hne
    rw [if_pos hjournal, hname] at hexact
    have hfind := (FsVfs.findReal_eq_recordOf_iff (Or.inr rfl)).mpr hexact
    rw [fsAccess_journal hne, hfind, db_recordOf]
    cases hrecord : s.vfs.recordOf m with
    | none => simp
    | some a => simp
  · intro hnot
    rw [if_neg hnot] at hexact
    have hfind := (FsVfs.findReal_eq_recordOf_iff (Or.inl rfl)).mpr hexact
    rw [fsAccess_database hnot, hfind, db_recordOf]
    cases hrecord : s.vfs.recordOf zPath with
    | none => simp
    | some a => simp

/-- What has to hold of a call for the databases to be separate. -/
structure Separate (s : Sys) (c : Call) (t : Sys) (r : Reply) : Prop where
  bound : ∀ h ∈ t.handles, (t.pReal h).zName = h.zDb
  opens : ∀ id zName flags malloc io, c = .xOpen id zName flags malloc io → r.rc = .ok →
    ∃ h, t.handle id = some h ∧ h.zDb = dbName zName flags ∧
      (∀ a, s.vfs.recordOf (dbName zName flags) = some a → h.file.pReal = a) ∧
      (s.vfs.recordOf (dbName zName flags) = none → h.file.pReal ∉ s.vfs.pFileList)
  deletes : ∀ m io, c = .xDelete (m ++ journalSuffix) io → t.db m = (s.db m).act (.delete io)
  accesses : ∀ zPath parent, c = .xAccess zPath SQLITE_ACCESS_EXISTS parent →
    (∀ m, m ≠ [] → zPath = m ++ journalSuffix →
        (r.out = 1 ↔ ∃ z, (s.db m).sizes = some z ∧ 0 < z.nJournal)) ∧
      (¬isJournal zPath → (r.out = 1 ↔ ∃ z, (s.db zPath).sizes = some z))
  others : c ≠ .stop → ∀ n, s.subject c ≠ some n → t.db n = s.db n

end Sys

theorem bound_run {disk : Disk} {calls : List Call} {s : Sys}
    (hrun : Run Sys.next Sys.ExactCall (Sys.start disk) calls s) : s.Bound := by
  refine hrun.invariant _ ?_ (Sys.start_bound disk)
  intro s c t hb hcall hnext
  obtain ⟨r, hstep⟩ := Sys.next_eq_some.mp hnext
  exact hb.step hcall hstep

/-- In runs whose calls find the records they look for the databases are
separate, and a search finds what it looks for exactly when no record with a
longer name comes first. -/
theorem databases_separate {disk : Disk} {calls : List Call} {s t : Sys} {c : Call} {r : Reply}
    (hrun : Run Sys.next Sys.ExactCall (Sys.start disk) calls s) (hcall : s.ExactCall c)
    (hstep : s.step c = some (t, r)) :
    s.Separate c t r ∧ ∀ m zName, (zName = m ∨ zName = m ++ journalSuffix) →
      (s.vfs.findReal zName m.length = s.vfs.recordOf m ↔ ¬s.vfs.Shadowed m) := by
  have hb := bound_run hrun
  refine ⟨⟨(hb.step hcall hstep).own, ?_, ?_, ?_, ?_⟩, ?_⟩
  · rintro id zName flags malloc io rfl hrc
    exact hcall.opened hstep hrc
  · rintro m io rfl
    exact hb.deleted hcall hstep
  · rintro zPath parent rfl
    exact hcall.access hstep
  · intro hgoes n hother
    exact hb.frame hcall hstep hgoes hother
  · exact fun m zName hname => FsVfs.findReal_eq_recordOf_iff hname

theorem databases_separate_open :
    let s := after Sys.next (Sys.start fun _ => .blank)
      [.xOpen 0 [97, 98] SQLITE_OPEN_MAIN_DB true carriedOut]
    ∃ t r, s.step (.xOpen 1 [98] SQLITE_OPEN_MAIN_DB true carriedOut) = some (t, r) ∧
      t.db [97, 98] = s.db [97, 98] := by
  intro s
  have hfirst : (Sys.start fun _ => .blank).ExactCall
      (.xOpen 0 [97, 98] SQLITE_OPEN_MAIN_DB true carriedOut) := by
    refine ⟨fun htype => absurd htype (by decide), ?_⟩
    intro m hm
    obtain rfl := Option.some.inj hm
    decide
  have hsecond : s.ExactCall (.xOpen 1 [98] SQLITE_OPEN_MAIN_DB true carriedOut) := by
    refine ⟨fun htype => absurd htype (by decide), ?_⟩
    intro m hm
    obtain rfl := Option.some.inj hm
    decide +kernel
  have hnext : (Sys.next (Sys.start fun _ => .blank)
      (.xOpen 0 [97, 98] SQLITE_OPEN_MAIN_DB true carriedOut)).isSome := by decide +kernel
  have hrun := Run.single hfirst (after_single hnext)
  refine ⟨_, _, rfl, ?_⟩
  exact (databases_separate hrun hsecond rfl).1.others nofun [97, 98] (by decide +kernel)

/-- `"a"` is opened while `"ab"` is open. -/
def longerNameCalls : List Call :=
  [.xOpen 0 [97, 98] SQLITE_OPEN_MAIN_DB true carriedOut,
    .xOpen 1 [97] SQLITE_OPEN_MAIN_DB true carriedOut]

/-- The handle of `"a"` is bound to the record of `"ab"`. -/
theorem longer_name_found :
    let s := after Sys.next (Sys.start fun _ => .blank) longerNameCalls
    Run Sys.next (fun _ c => c.Named) (Sys.start fun _ => .blank) longerNameCalls s ∧
      ∃ h, s.handle 1 = some h ∧ h.zDb = [97] ∧ (s.pReal h).zName = [97, 98] := by
  intro s
  have hh : s.handle 1 = some ⟨1, [97], ⟨true, .database, 1⟩⟩ := by decide +kernel
  refine ⟨Run.of_after (fun c hc _ => ?_) (by decide +kernel), _, hh, rfl, by decide +kernel⟩
  fin_cases hc
  · exact fun htype => absurd htype (by decide)
  · exact fun htype => absurd htype (by decide)

end SqliteFs
