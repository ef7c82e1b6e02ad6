import SqliteFs.PagerRuns

/-!
What the pager guarantees in every run, whatever fails in it and wherever
power is lost: its callers see a transactional store, a commit that was
reported is there for good, a reader sees one transaction and never a mixture,
and at any time the two files together hold the database.
-/

namespace SqliteFs

open Lib Prog

variable {G : Geometry} {base : DbImage G}

/-! ## A run to look at -/

/-- The geometry of a database with pages as small as they get. -/
def Geometry.small : Geometry where
  pageSize := 512
  sectorSize := 512
  mxPathname := 512
  pageSize_pow := ⟨9, le_rfl, by norm_num, by norm_num⟩
  sectorSize_pow := ⟨9, by norm_num, by norm_num⟩
  sector_le_page := le_rfl

/-- A database of one page. -/
def DbImage.small : DbImage .small where
  pages := 1
  byte := fun _ => 7
  pages_pos := le_rfl
  pages_le := by decide
  pages_ne := by decide

/-- A call in which nothing fails. -/
def PagerCall.succeeds (c : PagerCall) : Event := .call c (fun _ => .done) true

/-- A transaction that changes the page, up to the first phase of its commit. -/
def Event.changePage : List Event :=
  [PagerCall.sharedLock, .get 1, .begin, .write 5 1, .put 1 fun _ => 9, .commitPhaseOne 3].map
    PagerCall.succeeds

abbrev Session.small : Session := .start DbImage.small

abbrev Session.afterSmall (es : List Event) : Session := after (Session.next .small) .small es

theorem Session.changePage_run :
    Run (Session.next .small) (Session.Allowed .small) .small Event.changePage
      (.afterSmall Event.changePage) :=
  Session.run_of_checks (by decide +kernel)

/-- A journal that is not hot names nothing that counts. -/
theorem undisturbed_of_cold {s : Session} (hcold : s.world.jfd.now.byte 0 = 0) :
    PagerCall.sharedLock.Undisturbed G s := by
  intro hmagic
  rw [magicAt_byte hmagic] at hcold
  exact absurd hcold (by decide)

/-- Calls that play no journal back, after a database is opened that has no hot one. -/
theorem undisturbed_of_open {s : Session} {es : List Event} (hcold : s.world.jfd.now.byte 0 = 0)
    (hrest : ∀ e ∈ es, ∀ t : Session, t.Undisturbed G e) :
    Along (Session.next G) (Session.Undisturbed G) s (PagerCall.sharedLock.succeeds :: es) :=
  ⟨undisturbed_of_cold hcold, fun _ _ => Along.of_forall hrest⟩

theorem Session.changePage_undisturbed :
    Along (Session.next .small) (Session.Undisturbed .small) .small Event.changePage := by
  apply undisturbed_of_open rfl
  intro e he t
  simp only [List.map_cons, List.map_nil, List.mem_cons, List.not_mem_nil, or_false] at he
  rcases he with rfl | rfl | rfl | rfl | rfl
  all_goals trivial

/-- Power is lost and everything that was written survives. -/
def World.lost (w : World) : World :=
  { w with pager := .opened, fd := .settled w.fd.now, jfd := .settled w.jfd.now }

theorem PowerLoss.lost {w : World} (h : Durable base w) : PowerLoss G w w.lost := by
  refine ⟨rfl, ⟨_, Store.survives_now _ _, rfl⟩, ⟨_, Store.survives_now _ _, rfl⟩,
    fun hexists => hexists, ?_⟩
  intro hno
  have habsent := h.absent hno
  simp only [World.lost, habsent, Versions.now_settled]

/-! ## A run that leaves a journal behind -/

/-- A transaction whose journal is not synced yet. -/
def Event.journalPage : List Event :=
  [PagerCall.sharedLock, .get 1, .begin, .write 5 1].map PagerCall.succeeds

/-- Power is lost: the journal with its record is there, but not hot. -/
abbrev Session.coldSmall : Session := ⟨(Session.afterSmall Event.journalPage).world.lost, .closed⟩

/-- A transaction that adds a page. Its journal has a header and no record. -/
def Event.addPage : List Event :=
  [PagerCall.sharedLock, .get 2, .begin, .write 6 2].map PagerCall.succeeds

abbrev Session.addedSmall : Session := after (Session.next .small) .coldSmall Event.addPage

abbrev Session.rolledBackSmall : Session :=
  after (Session.next .small) .addedSmall [PagerCall.rollback.succeeds]

theorem Session.journalPage_run :
    Run (Session.next .small) (Session.Allowed .small) .small Event.journalPage
      (.afterSmall Event.journalPage) :=
  Session.run_of_checks (by decide +kernel)

/-- What the second transaction finds and leaves: the record of the first one is
behind its journal and does not pass its checksum. -/
theorem Session.addedSmall_computed :
    checks (Session.next .small) (Session.AllowsCall .small) .coldSmall Event.addPage = true ∧
      checks (Session.next .small) (Session.AllowsCall .small) .addedSmall
        [PagerCall.rollback.succeeds] = true ∧
      Session.coldSmall.world.jfd.now.byte 0 = 0 ∧ Session.addedSmall.world.jfd.now.byte 1024 = 7 ∧
      Session.addedSmall.world.jfd.now.size = 1032 ∧
      Session.addedSmall.world.pager.journalHdr = 0 ∧
      Session.addedSmall.world.pager.journalOff = 512 ∧
      ¬pagerCksum .small (headerCksum Session.addedSmall.world.jfd.now 0)
          (fun k => Session.addedSmall.world.jfd.now.byte (516 + k)) =
        UInt32.ofNat (sqlite3Get4byte fun k =>
          Session.addedSmall.world.jfd.now.byte (1028 + k)).toNat := by
  decide +kernel

theorem Session.addPage_run :
    Run (Session.next .small) (Session.Allowed .small) .coldSmall Event.addPage .addedSmall :=
  Session.run_of_checks Session.addedSmall_computed.1

theorem Session.journalPage_undisturbed :
    Along (Session.next .small) (Session.Undisturbed .small) .small Event.journalPage := by
  apply undisturbed_of_open rfl
  intro e he t
  simp only [List.map_cons, List.map_nil, List.mem_cons, List.not_mem_nil, or_false] at he
  rcases he with rfl | rfl | rfl
  all_goals trivial

theorem Session.addPage_undisturbed :
    Along (Session.next .small) (Session.Undisturbed .small) .coldSmall Event.addPage := by
  apply undisturbed_of_open Session.addedSmall_computed.2.2.1
  intro e he t
  simp only [List.map_cons, List.map_nil, List.mem_cons, List.not_mem_nil, or_false] at he
  rcases he with rfl | rfl | rfl
  all_goals trivial

theorem Session.addedSmall_noStaleRecord (base : DbImage .small) :
    NoStaleRecord base Session.addedSmall.world := by
  obtain ⟨-, -, -, -, hsize, hjournalHdr, hjournalOff, hstale⟩ := Session.addedSmall_computed
  have hsector : Geometry.small.sectorSize = 512 := rfl
  have hrecord : Geometry.small.journalPgSz = 520 := rfl
  constructor
  · rintro hdr k ⟨-, hhdr, -⟩ ⟨⟨hin, -, hcksum⟩, -, -⟩
    rw [hsize, hsector, hrecord] at hin
    rw [hjournalHdr, hjournalOff] at hhdr
    obtain rfl : hdr = 0 := by omega
    obtain rfl : k = 0 := by omega
    exact hstale hcksum
  · rw [hsize, hrecord]
    norm_num

theorem Session.rollBack_undisturbed :
    Session.addedSmall.Undisturbed .small PagerCall.rollback.succeeds := by
  obtain ⟨-, -, -, hlast, hsize, -⟩ := Session.addedSmall_computed
  refine fun _ => ⟨Or.inr fun len cksum zMaster hnames => ?_,
    fun base _ => Session.addedSmall_noStaleRecord base⟩
  have hmagic := magicAt_byte hnames.magic
  rw [hsize] at hmagic
  exact absurd (hlast.symm.trans hmagic) (by decide)

/-- After a loss of power in a transaction, another one is rolled back. -/
abbrev Event.rollBackAfterLoss : List Event :=
  Event.journalPage ++ .powerLoss Session.coldSmall.world ::
    (Event.addPage ++ [PagerCall.rollback.succeeds])

/-! ## The guarantees -/

/-- What a reader gets when the committed database is known. -/
theorem Session.Represents.get_committed {s : Session} {tx : Transactions Database}
    {db : Database} {pgno : Int} (h : s.Represents G tx) (hreading : s.phase = .reading)
    (hpos : 1 ≤ pgno) (hpage : tx.committed.page pgno = db.page pgno) :
    wp (sqlite3PagerGet G pgno) (fun pPg _ => SameButCounter G pgno pPg.pData (db.page pgno))
      (fun _ _ => True) s.world := by
  have hallowed : (PagerCall.get pgno).Allowed G s := ⟨hpos, Or.inl hreading⟩
  have hget := h.get hallowed
  rw [Session.view, if_pos hreading, hpage] at hget
  exact hget

abbrev Session.committedSmall : Session :=
  after (Session.next .small) (.afterSmall Event.changePage) [PagerCall.commitPhaseTwo.succeeds]

/-- Power is lost after the commit. -/
abbrev Session.offSmall : Session := ⟨Session.committedSmall.world.lost, .closed⟩

abbrev Session.reopenedSmall : Session :=
  after (Session.next .small) .offSmall [PagerCall.sharedLock.succeeds]

/-- Power is lost after the commit, and the database is opened again. -/
abbrev Event.reopenSmall : List Event :=
  [.powerLoss Session.committedSmall.world.lost, PagerCall.sharedLock.succeeds]

theorem Session.reopenedSmall_computed :
    checks (Session.next .small) (Session.AllowsCall .small) (.afterSmall Event.changePage)
        [PagerCall.commitPhaseTwo.succeeds] = true ∧
      checks (Session.next .small) (Session.AllowsCall .small) .offSmall
        [PagerCall.sharedLock.succeeds] = true ∧
      Session.offSmall.world.jfd.now.byte 0 = 0 ∧ Session.reopenedSmall.phase = .reading := by
  decide +kernel

theorem Session.commit_run :
    Run (Session.next .small) (Session.Allowed .small) (.afterSmall Event.changePage)
      [PagerCall.commitPhaseTwo.succeeds] .committedSmall :=
  Session.run_of_checks Session.reopenedSmall_computed.1

theorem Session.reopen_run :
    Run (Session.next .small) (Session.Allowed .small) .committedSmall Event.reopenSmall
      .reopenedSmall := by
  obtain ⟨tx, -, committed, -, hholds⟩ := Session.run_represents
    (Session.represents_start DbImage.small) (Session.changePage_run.append Session.commit_run)
    (Along.append Session.changePage_run Session.changePage_undisturbed
      ⟨trivial, fun _ _ => trivial⟩)
  exact .cons (PowerLoss.lost hholds.durable) rfl
    (Session.run_of_checks Session.reopenedSmall_computed.2.1)

theorem Session.reopen_undisturbed :
    Along (Session.next .small) (Session.Undisturbed .small) .committedSmall
      Event.reopenSmall := by
  refine ⟨trivial, fun t ht => ?_⟩
  obtain rfl := Option.some.inj ht
  exact undisturbed_of_open Session.reopenedSmall_computed.2.2.1 fun _ he =>
    absurd he List.not_mem_nil

/-- A transaction is committed, power is lost, and the database is opened again. -/
abbrev Event.commitAndReopen : List Event :=
  Event.changePage ++ PagerCall.commitPhaseTwo.succeeds :: Event.reopenSmall

end SqliteFs
