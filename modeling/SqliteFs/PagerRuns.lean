import SqliteFs.PagerSpec

/-!
Whole runs of the pager. A session is the pager, its two files and what its
caller may do next. Any call to the device may fail, a call may fail in the
middle of a write, and power may be lost between two calls; power that is lost
during a call is the run in which all later calls to the device fail and
nothing of theirs is kept.
-/

namespace SqliteFs

open Lib Prog

variable {G : Geometry}

/-! ## Sessions -/

/-- What the caller may do. `cutting` is a transaction that was cut off and
can only be committed or rolled back, `failed` one that can only be rolled
back after an error. -/
inductive Phase where
  | closed
  | reading
  | locked
  | writing
  | cutting
  | finished
  | failed
  | broken
  deriving DecidableEq, Repr

structure Session where
  world : World
  phase : Phase

/-- The calls to the pager. `put` is what a caller does with a page that it has
made writeable, `evict` and `stress` what the cache does to make room. -/
inductive PagerCall where
  | sharedLock
  | get (pgno : Int)
  | begin
  | write (random : UInt32) (pgno : Int)
  | put (pgno : Int) (d : Bytes)
  | stress (random : UInt32) (pgno : Int)
  | evict (pgno : Int)
  | truncateImage (nPage : Int)
  | commitPhaseOne (random : UInt32)
  | commitPhaseTwo
  | rollback
  | unlock

namespace PagerCall

def run (G : Geometry) : PagerCall → Io Unit
  | .sharedLock => sqlite3PagerSharedLock G
  | .get pgno => do let _ ← sqlite3PagerGet G pgno
  | .begin => sqlite3PagerBegin
  | .write random pgno => sqlite3PagerWrite G random pgno
  | .put pgno d => modify fun w => w.modify pgno fun _ => d
  | .stress random pgno => pagerStress G random pgno
  | .evict pgno => modify fun w => w.evict pgno
  | .truncateImage nPage => sqlite3PagerTruncateImage nPage
  | .commitPhaseOne random => sqlite3PagerCommitPhaseOne G random
  | .commitPhaseTwo => sqlite3PagerCommitPhaseTwo G
  | .rollback => sqlite3PagerRollback G
  | .unlock => pagerUnlockAndRollback G

/-- The phase after a call that was reported as `ok` says. -/
def next (c : PagerCall) (ok : Bool) (phase : Phase) : Phase :=
  match c with
  | .sharedLock => if ok then .reading else .closed
  | .get _ | .put _ _ | .evict _ => phase
  | .begin => .locked
  | .write _ _ => if ok then .writing else .failed
  | .stress _ _ => if ok then .writing else .broken
  | .truncateImage _ => .cutting
  | .commitPhaseOne _ =>
    if phase = .locked then .locked else if ok then .finished else .failed
  | .commitPhaseTwo | .rollback => if ok then .reading else .broken
  | .unlock => .closed

/-- What the call does to the database. -/
def action (c : PagerCall) (ok : Bool) : Transactions.Action Database :=
  match c with
  | .sharedLock | .get _ | .stress _ _ | .evict _ | .commitPhaseOne _ => .quiet
  | .begin | .rollback | .unlock => .restart
  | .write _ pgno => if ok then .change fun db => db.reach pgno else .quiet
  | .put pgno d => .change fun db => db.put pgno d
  | .truncateImage nPage => .change fun db => db.cut nPage
  | .commitPhaseTwo => if ok then .commit else .unsure

end PagerCall

/-- A rollback would have to play the journal back. -/
def Pager.mustUndo (p : Pager) : Prop :=
  EState.writerLocked.rank < p.eState.rank ∧ p.eState ≠ .error

/-- What a caller keeps to: a page is in the cache while it is written, only
writeable pages change, page 1 stays in the cache, a transaction is cut off
right before it is committed, and after an error it is rolled back. -/
def PagerCall.Allowed (G : Geometry) (c : PagerCall) (s : Session) : Prop :=
  match c with
  | .sharedLock => s.phase = .closed
  | .get pgno => 1 ≤ pgno ∧ (s.phase = .reading ∨ s.phase = .locked ∨ s.phase = .writing)
  | .begin => s.phase = .reading
  | .write _ pgno => (s.phase = .locked ∨ s.phase = .writing) ∧
      (s.world.pager.pPCache.page pgno).isSome = true
  | .put pgno _ => s.phase = .writing ∧
      (s.world.pager.pPCache.page pgno).any PgHdr.writeable = true
  | .stress _ pgno => s.phase = .writing ∧ pgno ∈ s.world.pager.pPCache.pDirty ∧ pgno ≠ 1
  | .evict pgno => (s.phase = .reading ∨ s.phase = .locked ∨ s.phase = .writing) ∧
      pgno ∉ s.world.pager.pPCache.pDirty
  | .truncateImage nPage => s.phase = .writing ∧ 1 ≤ nPage ∧ nPage ≤ s.world.pager.dbSize ∧
      nPage ≠ G.pagerMjPgno
  | .commitPhaseOne _ => s.phase = .locked ∨ s.phase = .writing ∨ s.phase = .cutting
  | .commitPhaseTwo => s.phase = .locked ∨ s.phase = .finished
  | .rollback => s.phase ≠ .closed ∧ s.phase ≠ .broken
  | .unlock => s.phase ≠ .closed

instance PagerCall.decidableAllowed (G : Geometry) (c : PagerCall) (s : Session) :
    Decidable (c.Allowed G s) := by
  cases c <;> unfold PagerCall.Allowed <;> infer_instance

/-- What is no matter of the caller but of the bytes in the journal: the journal
that the call plays back names no master journal that is gone, and if it is
that of the open transaction, no record behind it passes a checksum without
being a page of the database that the files hold. -/
def PagerCall.Undisturbed (G : Geometry) (c : PagerCall) (s : Session) : Prop :=
  match c with
  | .sharedLock => MagicAt s.world.jfd.now 0 → MasterFree G s.world
  | .rollback | .unlock =>
    s.world.pager.mustUndo → MasterFree G s.world ∧
      ∀ base : DbImage G, Durable base s.world → NoStaleRecord base s.world
  | _ => True

/-- A call with the outcomes of its calls to the device and what it reported,
or a loss of power. -/
inductive Event where
  | call (c : PagerCall) (io : Nat → IoOutcome) (ok : Bool)
  | powerLoss (u : World)

namespace Session

def next (G : Geometry) (s : Session) : Event → Option Session
  | .call c io ok =>
    let out := (c.run G).exec s.world io
    if out.1.isOk = ok then some ⟨out.2, c.next ok s.phase⟩ else none
  | .powerLoss u => some ⟨u, .closed⟩

def Allowed (G : Geometry) (s : Session) : Event → Prop
  | .call c _ _ => c.Allowed G s
  | .powerLoss u => PowerLoss G s.world u

/-- The event is a call that the caller may make. -/
def AllowsCall (G : Geometry) (s : Session) : Event → Prop
  | .call c _ _ => c.Allowed G s
  | .powerLoss _ => False

instance (G : Geometry) (s : Session) : (e : Event) → Decidable (s.AllowsCall G e)
  | .call c _ _ => inferInstanceAs (Decidable (c.Allowed G s))
  | .powerLoss _ => isFalse not_false

/-- A run of calls can be computed. -/
theorem run_of_checks {G : Geometry} {s : Session} {es : List Event}
    (h : checks (Session.next G) (Session.AllowsCall G) s es = true) :
    Run (Session.next G) (Session.Allowed G) s es (after (Session.next G) s es) := by
  apply Run.of_checks _ h
  intro t e he
  cases e with
  | call c io ok => exact he
  | powerLoss u => exact he.elim

def Undisturbed (G : Geometry) (s : Session) : Event → Prop
  | .call c _ _ => c.Undisturbed G s
  | .powerLoss _ => True

end Session

def Event.action : Event → Transactions.Action Database
  | .call c _ ok => c.action ok
  | .powerLoss _ => .lost

/-! ## The invariant -/

/-- What holds in each phase when `base` is the image that is committed. -/
def Phase.Holds (base : DbImage G) (w : World) (working : Database) : Phase → Prop
  | .closed => Unlocked base w
  | .reading => Reading base w ∧ w.pager.eState = .reader
  | .locked => Reading base w ∧ w.pager.eState = .writerLocked ∧ base.Shows working
  | .writing => (∃ segs cur, Writing base segs cur w) ∧ Growing w ∧ w.Shows G working
  | .cutting => (∃ segs cur, Writing base segs cur w) ∧ w.pager.dbSize = working.pages ∧
      ∀ p, 1 ≤ p → p ≤ working.pages → SameButCounter G p (w.content G p) (working.page p)
  | .finished => ∃ segs new, Finished base new segs w ∧ new.Shows working
  | .failed => Reading base w ∧ w.pager.eState = .writerLocked ∨
      ∃ segs cur, Doomed base segs cur w
  | .broken => Broken base w

/-- The session holds what is committed, and what its transaction has. -/
def Session.Represents (G : Geometry) (s : Session) (tx : Transactions Database) : Prop :=
  ∃ base : DbImage G, base.Shows tx.committed ∧ s.phase.Holds base s.world tx.working

/-- A database may come back with other pages behind its end. -/
abbrev DbStep := Transactions.Step Database.Longer

/-- The call does to the session what its action does to the database. -/
def PagerCall.Meets (G : Geometry) (c : PagerCall) (s : Session) (tx : Transactions Database) :
    Prop :=
  wp (c.run G)
    (fun _ u => ∃ tx', DbStep tx (c.action true) tx' ∧
      Session.Represents G ⟨u, c.next true s.phase⟩ tx')
    (fun _ u => ∃ tx', DbStep tx (c.action false) tx' ∧
      Session.Represents G ⟨u, c.next false s.phase⟩ tx')
    s.world

/-! ## One call -/

/-- In a growing transaction the file is no longer than the database. -/
theorem Growing.fdSize {w : World} {base : DbImage G} {segs : List Segment} {cur : List Int}
    (hg : Growing w) (h : Writing base segs cur w) :
    w.fd.now.size ≤ G.pageSize * w.pager.dbSize := by
  have hP := G.pageSize_bounds
  rw [h.fdSize]
  exact mul_le_mul_of_nonneg_left hg.file (by omega)

/-- The new image is that of the database of the transaction. -/
theorem Commits.shows {w : World} {new : DbImage G} {db : Database}
    (h : Commits G w new) (hsize : w.pager.dbSize = db.pages)
    (hpage : ∀ p, 1 ≤ p → p ≤ db.pages → SameButCounter G p (w.content G p) (db.page p)) :
    new.Shows db := by
  have hpages : new.pages = db.pages := h.1.trans hsize
  refine ⟨hpages, ?_⟩
  intro p hpos hle
  exact (h.2 p hpos (hle.trans hpages.ge)).trans (hpage p hpos hle)

/-- In a phase with a transaction the pager is a reader, or its journal can be
rolled back. -/
theorem Phase.Holds.undo {phase : Phase} {w : World} {base : DbImage G} {db : Database}
    (h : phase.Holds base w db) (hclosed : phase ≠ .closed) :
    Reading base w ∨ (∃ segs cur, Doomed base segs cur w) ∨
      phase = .broken ∧ Broken base w := by
  cases phase with
  | closed => exact absurd rfl hclosed
  | reading => exact Or.inl h.1
  | locked => exact Or.inl h.1
  | writing =>
      obtain ⟨⟨segs, cur, hwrite⟩, -⟩ := h
      exact Or.inr (Or.inl ⟨segs, cur, hwrite.doomed⟩)
  | cutting =>
      obtain ⟨⟨segs, cur, hwrite⟩, -⟩ := h
      exact Or.inr (Or.inl ⟨segs, cur, hwrite.doomed⟩)
  | finished =>
      obtain ⟨segs, new, hfinished, -⟩ := h
      exact Or.inr (Or.inl ⟨segs, [], hfinished.toDoomed⟩)
  | failed =>
      rcases h with ⟨hread, -⟩ | hdoomed
      · exact Or.inl hread
      · exact Or.inr (Or.inl hdoomed)
  | broken => exact Or.inr (Or.inr ⟨rfl, h⟩)

namespace PagerCall

variable {s : Session} {tx : Transactions Database} {base : DbImage G} {pgno : Int}
  {random : UInt32}

/-- The database stays as it is. -/
theorem quiet {c : PagerCall} {ok : Bool} {phase : Phase} {u : World}
    (haction : c.action ok = .quiet) (hbase : base.Shows tx.committed)
    (h : (c.next ok phase).Holds base u tx.working) :
    ∃ tx', DbStep tx (c.action ok) tx' ∧ Session.Represents G ⟨u, c.next ok phase⟩ tx' := by
  rw [haction]
  exact ⟨tx, .quiet tx, base, hbase, h⟩

/-- The transaction goes on with another database. -/
theorem changed {c : PagerCall} {ok : Bool} {phase : Phase} {u : World} {f : Database → Database}
    (haction : c.action ok = .change f) (hbase : base.Shows tx.committed)
    (h : (c.next ok phase).Holds base u (f tx.working)) :
    ∃ tx', DbStep tx (c.action ok) tx' ∧ Session.Represents G ⟨u, c.next ok phase⟩ tx' := by
  rw [haction]
  exact ⟨⟨tx.committed, f tx.working⟩, .change tx f, base, hbase, h⟩

/-- Only the committed database is left. -/
theorem restarted {c : PagerCall} {ok : Bool} {phase : Phase} {u : World}
    (haction : c.action ok = .restart) (hbase : base.Shows tx.committed)
    (h : (c.next ok phase).Holds base u tx.committed) :
    ∃ tx', DbStep tx (c.action ok) tx' ∧ Session.Represents G ⟨u, c.next ok phase⟩ tx' := by
  rw [haction]
  exact ⟨.begun tx.committed, .restart tx, base, hbase, h⟩

theorem meets_sharedLock (hbase : base.Shows tx.committed)
    (h : s.phase.Holds base s.world tx.working) (hallowed : PagerCall.sharedLock.Allowed G s)
    (hfree : PagerCall.sharedLock.Undisturbed G s) : PagerCall.sharedLock.Meets G s tx := by
  have hphase : s.phase = .closed := hallowed
  rw [hphase] at h
  apply wp_sqlite3PagerSharedLock h hfree
  · exact fun u hu hreader => quiet rfl hbase ⟨hu, hreader⟩
  · exact fun _ u hu => quiet rfl hbase hu

theorem meets_get (hbase : base.Shows tx.committed)
    (h : s.phase.Holds base s.world tx.working) (hallowed : (PagerCall.get pgno).Allowed G s) :
    (PagerCall.get pgno).Meets G s tx := by
  obtain ⟨hpos, hphase⟩ := hallowed
  obtain ⟨w, phase⟩ := s
  apply wp_bind
  rcases hphase with hphase | hphase | hphase
  · subst hphase
    obtain ⟨hread, hstate⟩ := h
    apply wp_sqlite3PagerGet_reading hread hpos
    · exact fun _ u hu _ hsame _ => wp_pure (quiet rfl hbase ⟨hu, hsame.trans hstate⟩)
    · exact fun _ u hu _ hsame => quiet rfl hbase ⟨hu, hsame.trans hstate⟩
  · subst hphase
    obtain ⟨hread, hstate, hworking⟩ := h
    apply wp_sqlite3PagerGet_reading hread hpos
    · exact fun _ u hu _ hsame _ => wp_pure (quiet rfl hbase ⟨hu, hsame.trans hstate, hworking⟩)
    · exact fun _ u hu _ hsame => quiet rfl hbase ⟨hu, hsame.trans hstate, hworking⟩
  · subst hphase
    obtain ⟨⟨segs, cur, hwrite⟩, hg, hshows⟩ := h
    have hfetched : ∀ u, Writing base segs cur u → Fetched G w u →
        Phase.writing.Holds base u tx.working :=
      fun u hu hf => ⟨⟨segs, cur, hu⟩, hf.growing hg, hshows.same hf.dbSize hf.content⟩
    apply wp_sqlite3PagerGet_writing hwrite hpos fun _ => hg.fdSize hwrite
    · exact fun _ u hu hf _ => wp_pure (quiet rfl hbase (hfetched u hu hf))
    · exact fun _ u hu hf => quiet rfl hbase (hfetched u hu hf)

theorem meets_begin (hbase : base.Shows tx.committed)
    (h : s.phase.Holds base s.world tx.working) (hallowed : PagerCall.begin.Allowed G s) :
    PagerCall.begin.Meets G s tx := by
  obtain ⟨w, phase⟩ := s
  obtain rfl : phase = .reading := hallowed
  apply wp_sqlite3PagerBegin h.1
  exact fun u hu hlocked _ => restarted rfl hbase ⟨hu, hlocked, hbase⟩

theorem meets_write (hbase : base.Shows tx.committed)
    (h : s.phase.Holds base s.world tx.working)
    (hallowed : (PagerCall.write random pgno).Allowed G s) :
    (PagerCall.write random pgno).Meets G s tx := by
  obtain ⟨hphase, hcached⟩ := hallowed
  obtain ⟨w, phase⟩ := s
  rcases hphase with hphase | hphase
  · subst hphase
    obtain ⟨hread, hlocked, hworking⟩ := h
    apply wp_sqlite3PagerWrite_first hread hlocked hcached
    · intro u cur' hu hgu hsize hcontent
      have hsame : SameContent G w u := by
        intro q
        rw [hcontent]
        exact SamePage.refl _
      have hshows := (hread.shows hworking).reach (hsize.trans (by rw [hread.dbSize])) hsame
      exact changed rfl hbase ⟨⟨[], cur', hu⟩, hgu, hshows⟩
    · intro _ u hu
      apply quiet rfl hbase
      exact hu.imp id fun hdoomed => ⟨[], [], hdoomed⟩
  · subst hphase
    obtain ⟨⟨segs, cur, hwrite⟩, hg, hshows⟩ := h
    apply wp_sqlite3PagerWrite hwrite hcached
    · intro u cur' hu hwritten
      exact changed rfl hbase ⟨⟨segs, cur', hu⟩, hwritten.growing hg,
        hshows.reach hwritten.dbSize hwritten.sameContent⟩
    · exact fun _ u hu => quiet rfl hbase (Or.inr ⟨segs, cur, hu⟩)

theorem meets_put {d : Bytes} (hbase : base.Shows tx.committed)
    (h : s.phase.Holds base s.world tx.working) (hallowed : (PagerCall.put pgno d).Allowed G s) :
    (PagerCall.put pgno d).Meets G s tx := by
  obtain ⟨w, phase⟩ := s
  obtain ⟨rfl, hwriteable⟩ := hallowed
  obtain ⟨⟨segs, cur, hwrite⟩, hg, hshows⟩ := h
  obtain ⟨pPg, hpage, hflag⟩ := (Option.any_eq_true _ _).mp hwriteable
  have hmem := hwrite.cache.writeable pgno pPg hpage hflag
  apply wp_modify
  exact changed rfl hbase ⟨⟨segs, cur, hwrite.modify hmem _⟩, hg.modify _,
    hshows.put (hwrite.cache.dirty pgno hmem) (hg.dirty pgno hmem) d⟩

theorem meets_stress (hbase : base.Shows tx.committed)
    (h : s.phase.Holds base s.world tx.working)
    (hallowed : (PagerCall.stress random pgno).Allowed G s) :
    (PagerCall.stress random pgno).Meets G s tx := by
  obtain ⟨w, phase⟩ := s
  obtain ⟨rfl, hmem, hne⟩ := hallowed
  obtain ⟨⟨segs, cur, hwrite⟩, hg, hshows⟩ := h
  apply wp_pagerStress hwrite hg hmem hne
  · intro u segs' cur' hu hgu hsize hsame
    exact quiet rfl hbase ⟨⟨segs', cur', hu⟩, hgu, hshows.same hsize hsame⟩
  · exact fun _ u hu => quiet rfl hbase hu

theorem meets_evict (hbase : base.Shows tx.committed)
    (h : s.phase.Holds base s.world tx.working) (hallowed : (PagerCall.evict pgno).Allowed G s) :
    (PagerCall.evict pgno).Meets G s tx := by
  obtain ⟨w, phase⟩ := s
  obtain ⟨hphase, hclean⟩ := hallowed
  apply wp_modify
  rcases hphase with hphase | hphase | hphase
  · subst hphase
    exact quiet rfl hbase ⟨h.1.evict, h.2⟩
  · subst hphase
    exact quiet rfl hbase ⟨h.1.evict, h.2⟩
  · subst hphase
    obtain ⟨⟨segs, cur, hwrite⟩, hg, hshows⟩ := h
    have hsame : SameContent G w (w.evict pgno) :=
      sameContent_evict fun pPg hpage => hwrite.cache.clean pgno pPg hpage hclean
    exact quiet rfl hbase ⟨⟨segs, cur, hwrite.evict hclean⟩, hg.evict, hshows.same rfl hsame⟩

theorem meets_truncateImage {nPage : Int} (hbase : base.Shows tx.committed)
    (h : s.phase.Holds base s.world tx.working)
    (hallowed : (PagerCall.truncateImage nPage).Allowed G s) :
    (PagerCall.truncateImage nPage).Meets G s tx := by
  obtain ⟨w, phase⟩ := s
  obtain ⟨rfl, hpos, hle, hne⟩ := hallowed
  obtain ⟨⟨segs, cur, hwrite⟩, -, hshows⟩ := h
  have hvalid : ValidPages G nPage := ⟨hle.trans hwrite.dbSize.1, hne⟩
  have hcut : Writing base segs cur { w with pager := { w.pager with dbSize := nPage } } :=
    ⟨hwrite.toOpenJournal.frame rfl rfl ⟨rfl, rfl, rfl, rfl, rfl, rfl⟩, hwrite.errCode,
      hwrite.eState, hwrite.dbOrigSize, hpos, hvalid, hwrite.fdSize, hwrite.base_le,
      hwrite.dbFileSize, hwrite.undoable, hwrite.exact, hwrite.cache⟩
  apply wp_setPager
  refine changed rfl hbase ⟨⟨segs, cur, hcut⟩, rfl, ?_⟩
  intro p hp hple
  have hpage : (tx.working.cut nPage).page p = tx.working.page p := if_pos hple
  rw [hpage]
  exact hshows.page p hp

theorem meets_commitPhaseOne (hbase : base.Shows tx.committed)
    (h : s.phase.Holds base s.world tx.working)
    (hallowed : (PagerCall.commitPhaseOne random).Allowed G s) :
    (PagerCall.commitPhaseOne random).Meets G s tx := by
  obtain ⟨w, phase⟩ := s
  -- the two kinds of transactions that wrote something
  have hcommit : ∀ segs cur, phase ≠ .locked → Writing base segs cur w →
      w.pager.dbSize = tx.working.pages →
      (∀ p, 1 ≤ p → p ≤ tx.working.pages →
        SameButCounter G p (w.content G p) (tx.working.page p)) →
      (PagerCall.commitPhaseOne random).Meets G ⟨w, phase⟩ tx := by
    intro segs cur hne hwrite hsize hpage
    have hok : (PagerCall.commitPhaseOne random).next true phase = .finished := if_neg hne
    have herr : (PagerCall.commitPhaseOne random).next false phase = .failed := if_neg hne
    apply wp_sqlite3PagerCommitPhaseOne hwrite
    · intro u new segs' hu hnew
      apply quiet rfl hbase
      simp only [hok]
      exact ⟨segs', new, hu, hnew.shows hsize hpage⟩
    · intro _ u segs' cur' hu
      apply quiet rfl hbase
      simp only [herr]
      exact Or.inr ⟨segs', cur', hu⟩
  rcases hallowed with hphase | hphase | hphase
  · obtain rfl : phase = .locked := hphase
    have hread : Reading base w := h.1
    have hlocked : w.pager.eState = .writerLocked := h.2.1
    apply wp_bind
    apply wp_getPager
    simp only [hread.errCode]
    apply wp_whenever
    · intro hrank
      rw [hlocked] at hrank
      exact absurd hrank (by decide)
    · intro _
      apply quiet rfl hbase
      exact h
  · obtain rfl : phase = .writing := hphase
    obtain ⟨⟨segs, cur, hwrite⟩, -, hshows⟩ := h
    exact hcommit segs cur (by decide) hwrite hshows.dbSize fun p hpos _ => hshows.page p hpos
  · obtain rfl : phase = .cutting := hphase
    obtain ⟨⟨segs, cur, hwrite⟩, hsize, hpage⟩ := h
    exact hcommit segs cur (by decide) hwrite hsize hpage

theorem meets_commitPhaseTwo (hbase : base.Shows tx.committed)
    (h : s.phase.Holds base s.world tx.working) (hallowed : PagerCall.commitPhaseTwo.Allowed G s) :
    PagerCall.commitPhaseTwo.Meets G s tx := by
  obtain ⟨w, phase⟩ := s
  rcases hallowed with hphase | hphase
  · obtain rfl : phase = .locked := hphase
    obtain ⟨hread, hlocked, hworking⟩ := h
    apply wp_sqlite3PagerCommitPhaseTwo_locked hread hlocked
    · exact fun u hu hreader => ⟨.begun tx.working, .commit tx, base, hworking, hu, hreader⟩
    · exact fun _ u hu => ⟨tx, .kept tx, base, hbase, hu⟩
  · obtain rfl : phase = .finished := hphase
    obtain ⟨segs, new, hfinished, hnew⟩ := h
    apply wp_sqlite3PagerCommitPhaseTwo hfinished
    · exact fun u hu => ⟨.begun tx.working, .commit tx, new, hnew, hu.toReading, hu.eState⟩
    · rintro _ u (⟨hu, -⟩ | ⟨long, hext, hu, -⟩)
      · exact ⟨tx, .kept tx, base, hbase, hu⟩
      · obtain ⟨db, hlonger, hshows⟩ := hnew.longer hext
        exact ⟨.begun db, .done tx hlonger, long, hshows, hu⟩

theorem meets_rollback (hbase : base.Shows tx.committed)
    (h : s.phase.Holds base s.world tx.working) (hallowed : PagerCall.rollback.Allowed G s)
    (hundo : PagerCall.rollback.Undisturbed G s) : PagerCall.rollback.Meets G s tx := by
  obtain ⟨w, phase⟩ := s
  obtain ⟨hclosed, hbroken⟩ := hallowed
  rcases h.undo hclosed with hread | ⟨segs, cur, hdoomed⟩ | hbroke
  · apply wp_sqlite3PagerRollback_reading hread
    · exact fun u hu hreader => restarted rfl hbase ⟨hu, hreader⟩
    · exact fun _ u hu => restarted rfl hbase hu
  · obtain ⟨hfree, hfresh⟩ := hundo hdoomed.rank
    apply wp_sqlite3PagerRollback hdoomed hfree (hfresh base hdoomed.toDurable)
    · exact fun u hu => restarted rfl hbase ⟨hu.toReading, hu.eState⟩
    · exact fun _ u hu => restarted rfl hbase hu
  · exact absurd hbroke.1 hbroken

theorem meets_unlock (hbase : base.Shows tx.committed)
    (h : s.phase.Holds base s.world tx.working) (hclosed : PagerCall.unlock.Allowed G s)
    (hundo : PagerCall.unlock.Undisturbed G s) : PagerCall.unlock.Meets G s tx := by
  obtain ⟨w, phase⟩ := s
  have hopened : ∀ u, Unlocked base u → ∃ tx', DbStep tx (PagerCall.unlock.action true) tx' ∧
      Session.Represents G ⟨u, PagerCall.unlock.next true phase⟩ tx' :=
    fun u hu => restarted rfl hbase hu
  rcases h.undo hclosed with hread | ⟨segs, cur, hdoomed⟩ | hbroke
  · exact wp_pagerUnlockAndRollback_reading hread hopened
  · obtain ⟨hfree, hfresh⟩ := hundo hdoomed.rank
    exact wp_pagerUnlockAndRollback hdoomed hfree (hfresh base hdoomed.toDurable) hopened
  · exact wp_pagerUnlockAndRollback_broken hbroke.2 hopened

/-- Every call that the caller may make does what its action says. -/
theorem meets {c : PagerCall} (h : s.Represents G tx) (hallowed : c.Allowed G s)
    (hundisturbed : c.Undisturbed G s) : c.Meets G s tx := by
  obtain ⟨base, hbase, hholds⟩ := h
  cases c with
  | sharedLock => exact meets_sharedLock hbase hholds hallowed hundisturbed
  | get pgno => exact meets_get hbase hholds hallowed
  | begin => exact meets_begin hbase hholds hallowed
  | write random pgno => exact meets_write hbase hholds hallowed
  | put pgno d => exact meets_put hbase hholds hallowed
  | stress random pgno => exact meets_stress hbase hholds hallowed
  | evict pgno => exact meets_evict hbase hholds hallowed
  | truncateImage nPage => exact meets_truncateImage hbase hholds hallowed
  | commitPhaseOne random => exact meets_commitPhaseOne hbase hholds hallowed
  | commitPhaseTwo => exact meets_commitPhaseTwo hbase hholds hallowed
  | rollback => exact meets_rollback hbase hholds hallowed hundisturbed
  | unlock => exact meets_unlock hbase hholds hallowed hundisturbed

end PagerCall

/-! ## Runs -/

section Runs

variable {s t : Session} {tx : Transactions Database} {base : DbImage G} {es : List Event}

/-- In every phase the two files can be rolled back to what is committed. -/
theorem Phase.Holds.durable {phase : Phase} {w : World} {db : Database}
    (h : phase.Holds base w db) : Durable base w := by
  rcases em (phase = .closed) with rfl | hclosed
  · exact Unlocked.toDurable h
  · rcases h.undo hclosed with hread | ⟨segs, cur, hdoomed⟩ | hbroke
    · exact hread.durable
    · exact hdoomed.toDurable
    · exact hbroke.2.toDurable

/-- What is committed is there after a loss of power. -/
theorem PowerLoss.opened {w u : World} (h : PowerLoss G w u) (hw : Durable base w) :
    ∃ long : DbImage G, long.Extends base ∧ Unlocked long u := by
  obtain ⟨long, hext, hdurable⟩ := h.durable hw
  refine ⟨long, hext, hdurable, ?_, ?_, ?_, ?_, ?_, Or.inl ?_⟩
  · rw [h.pager]
    rfl
  · rw [h.pager]
    rfl
  · rw [h.pager]
    rfl
  · rw [h.pager]
    rfl
  · rw [h.pager]
    rfl
  · rw [h.pager]
    rfl

/-- A step of the session does to the database what its action says. -/
theorem Session.next_represents {e : Event} (h : s.Represents G tx) (hallowed : s.Allowed G e)
    (hundisturbed : s.Undisturbed G e) (hnext : s.next G e = some t) :
    ∃ tx', DbStep tx e.action tx' ∧ t.Represents G tx' := by
  cases e with
  | call c io ok =>
      have hends := PagerCall.meets h hallowed hundisturbed io
      simp only [Session.next] at hnext
      split_ifs at hnext with hok
      obtain rfl := Option.some.inj hnext
      revert hends hok
      rcases (c.run G).exec s.world io with ⟨_ | _, u⟩
      · rintro hends rfl
        exact hends
      · rintro hends rfl
        exact hends
  | powerLoss u =>
      obtain rfl := Option.some.inj hnext
      obtain ⟨base, hbase, hholds⟩ := h
      obtain ⟨long, hext, hopened⟩ := PowerLoss.opened hallowed hholds.durable
      obtain ⟨db, hlonger, hshows⟩ := hbase.longer hext
      exact ⟨.begun db, .lost tx hlonger, long, hshows, hopened⟩

/-- The file of an image. -/
def DbImage.file (base : DbImage G) : ParentFile where
  size := G.pageSize * base.pages
  byte i := if i < G.pageSize * base.pages then base.byte i else 0
  size_nonneg :=
    mul_nonneg (by linarith only [G.pageSize_bounds.1]) (by linarith only [base.pages_pos])
  zero_past _ hi := if_neg (not_lt.mpr hi)

theorem DbImage.isIn_file (base : DbImage G) : base.IsIn base.file :=
  ⟨⟨le_rfl, fun _ hi _ => if_pos hi.2⟩, rfl⟩

/-- A pager that was just opened on the file of an image. -/
def Session.start (base : DbImage G) : Session where
  world :=
    { pager := .opened
      fd := .settled base.file
      jfd := .settled .blank
      journalExists := false
      masterExists := false }
  phase := .closed

theorem Session.represents_start (base : DbImage G) :
    (Session.start base).Represents G (.begun base.database) := by
  have hrest : AtRest base (.settled base.file) := .settled base.isIn_file
  exact ⟨base, base.shows_database, .deleted hrest rfl, rfl, rfl, rfl, rfl, rfl, Or.inl rfl⟩

theorem Session.run_represents (h : s.Represents G tx)
    (hrun : Run (Session.next G) (Session.Allowed G) s es t)
    (hundisturbed : Along (Session.next G) (Session.Undisturbed G) s es) :
    ∃ tx', Transactions.Steps Database.Longer tx (es.map Event.action) tx' ∧ t.Represents G tx' :=
  Run.transactions
    (fun _ _ _ _ hrel hallowed hnext => Session.next_represents hrel hallowed.1 hallowed.2 hnext)
    (hrun.along hundisturbed) h

/-- What a caller that may read is to see. -/
def Session.view (s : Session) (tx : Transactions Database) : Database :=
  if s.phase = .reading then tx.committed else tx.working

/-- Reading a page gives the page of the database. -/
theorem Session.Represents.get (h : s.Represents G tx) {pgno : Int}
    (hallowed : (PagerCall.get pgno).Allowed G s) :
    wp (sqlite3PagerGet G pgno)
      (fun pPg _ => SameButCounter G pgno pPg.pData ((s.view tx).page pgno)) (fun _ _ => True)
      s.world := by
  obtain ⟨base, hbase, hholds⟩ := h
  obtain ⟨hpos, hphase⟩ := hallowed
  obtain ⟨w, phase⟩ := s
  -- the page that is fetched is that of the database the pager shows
  have hread : ∀ db, Reading base w → base.Shows db → wp (sqlite3PagerGet G pgno)
      (fun pPg _ => SameButCounter G pgno pPg.pData (db.page pgno)) (fun _ _ => True) w := by
    intro db hread hdb
    apply wp_sqlite3PagerGet_reading hread hpos
    · intro pPg u _ hsame _ hpage
      have hcontent := hsame pgno
      rw [World.content_of_some hpage] at hcontent
      exact hcontent.sameButCounter.trans ((hread.shows hdb).page pgno hpos)
    · exact fun _ _ _ _ _ => trivial
  rcases hphase with hphase | hphase | hphase
  · obtain rfl : phase = .reading := hphase
    exact hread tx.committed hholds.1 hbase
  · obtain rfl : phase = .locked := hphase
    exact hread tx.working hholds.1 hholds.2.2
  · obtain rfl : phase = .writing := hphase
    obtain ⟨⟨segs, cur, hwrite⟩, hg, hshows⟩ := hholds
    apply wp_sqlite3PagerGet_writing hwrite hpos fun _ => hg.fdSize hwrite
    · intro pPg u _ hfetched hpage
      have hcontent := hfetched.content pgno
      rw [World.content_of_some hpage] at hcontent
      exact hcontent.sameButCounter.trans (hshows.page pgno hpos)
    · exact fun _ _ _ _ => trivial

end Runs

end SqliteFs
