import SqliteFs.TransactionEnds
import SqliteFs.Lib.Transactions

/-!
What the pager is for: a database of pages, read and written in transactions.
A `Database` has nothing of files, caches or journals. `DbImage.Shows` and
`World.Shows` say when an image and the pager have the content of a database;
the change counter in page 1 is the business of the pager alone.
-/

namespace SqliteFs

open Lib Prog

variable {G : Geometry} {base : DbImage G} {w : World} {E : Code → World → Prop}
  {segs : List Segment} {cur : List Int}

/-! ## Databases -/

structure Database where
  pages : Int
  page : Int → Bytes
  blank : ∀ p, pages < p → page p = fun _ => 0

namespace Database

variable {db db' : Database} {p n : Int}

/-- Page `p` is there from now on. -/
def reach (db : Database) (p : Int) : Database where
  pages := max db.pages p
  page := db.page
  blank q hq := db.blank q ((le_max_left _ _).trans_lt hq)

/-- Page `p` has the content `d`, if it is there. -/
def put (db : Database) (p : Int) (d : Bytes) : Database where
  pages := db.pages
  page q := if q = p ∧ p ≤ db.pages then d else db.page q
  blank := by
    intro q hq
    rw [if_neg]
    · exact db.blank q hq
    · rintro ⟨rfl, hle⟩
      omega

/-- Only the first `n` pages are left. -/
def cut (db : Database) (n : Int) : Database where
  pages := n
  page q := if q ≤ n then db.page q else fun _ => 0
  blank _ hq := if_neg (not_le.mpr hq)

/-- `db'` is `db` with other pages behind its end. -/
def Longer (db' db : Database) : Prop :=
  db.pages ≤ db'.pages ∧ ∀ q, q ≤ db.pages → db'.page q = db.page q

theorem Longer.refl (db : Database) : db.Longer db := ⟨le_rfl, fun _ _ => rfl⟩

theorem Longer.trans {a b c : Database} (h : a.Longer b) (h' : b.Longer c) : a.Longer c :=
  ⟨h'.1.trans h.1, fun q hq => (h.2 q (hq.trans h'.1)).trans (h'.2 q hq)⟩

end Database

/-! ## Images and databases -/

/-- The image of a database. -/
structure DbImage.Shows (base : DbImage G) (db : Database) : Prop where
  pages : base.pages = db.pages
  page : ∀ p, 1 ≤ p → p ≤ db.pages → SameButCounter G p (base.page p) (db.page p)

def DbImage.database (base : DbImage G) : Database where
  pages := base.pages
  page p := if p ≤ base.pages then base.page p else fun _ => 0
  blank _ hp := if_neg (not_le.mpr hp)

theorem DbImage.shows_database (base : DbImage G) : base.Shows base.database := by
  refine ⟨rfl, ?_⟩
  intro p _ hle
  have hpage : base.database.page p = base.page p := if_pos hle
  rw [hpage]
  exact (SamePage.refl _).sameButCounter

/-- A longer image is that of a longer database. -/
theorem DbImage.Shows.longer {long : DbImage G} {db : Database} (h : base.Shows db)
    (hext : long.Extends base) : ∃ db', db'.Longer db ∧ long.Shows db' := by
  have hle := hext.pages
  rw [h.pages] at hle
  refine ⟨⟨long.pages, fun p => if p ≤ db.pages then db.page p else long.database.page p, ?_⟩,
    ⟨hle, fun q hq => if_pos hq⟩, rfl, ?_⟩
  · intro p hp
    rw [if_neg (by omega)]
    exact long.database.blank p hp
  · intro p hpos hple
    simp only
    split_ifs with hold
    · have hsame : SamePage G (long.page p) (base.page p) :=
        fun k hlo hhi => hext.page hpos (hold.trans h.pages.ge) hlo hhi
      exact hsame.sameButCounter.trans (h.page p hpos hold)
    · exact long.shows_database.page p hpos hple

/-- The pager shows the database, with zeros behind its end. -/
structure World.Shows (G : Geometry) (w : World) (db : Database) : Prop where
  dbSize : w.pager.dbSize = db.pages
  page : ∀ p, 1 ≤ p → SameButCounter G p (w.content G p) (db.page p)

namespace World.Shows

variable {u : World} {db : Database} {pgno n : Int}

theorem same (h : w.Shows G db) (hsize : u.pager.dbSize = w.pager.dbSize)
    (hsame : SameContent G w u) : u.Shows G db :=
  ⟨hsize.trans h.dbSize, fun p hpos => (hsame p).sameButCounter.trans (h.page p hpos)⟩

theorem reach (h : w.Shows G db) (hsize : u.pager.dbSize = max w.pager.dbSize pgno)
    (hsame : SameContent G w u) : u.Shows G (db.reach pgno) := by
  constructor
  · rw [hsize, h.dbSize]
    rfl
  · exact fun p hpos => (hsame p).sameButCounter.trans (h.page p hpos)

/-- A page that is in the cache and in the database is overwritten. -/
theorem put (h : w.Shows G db) (hcached : (w.pager.pPCache.page pgno).isSome = true)
    (hle : pgno ≤ w.pager.dbSize) (d : Bytes) :
    (w.modify pgno fun _ => d).Shows G (db.put pgno d) := by
  obtain ⟨pPg, hpage⟩ := Option.isSome_iff_exists.mp hcached
  constructor
  · exact h.dbSize
  · intro p hpos
    simp only [Database.put]
    split_ifs with hp
    · rw [hp.1, content_modify_self hpage]
      exact (SamePage.refl _).sameButCounter
    · have hne : p ≠ pgno := fun heq => hp ⟨heq, h.dbSize ▸ hle⟩
      rw [content_modify_other hne]
      exact h.page p hpos

end World.Shows

/-- A reader sees the database of the image. -/
theorem Reading.shows {db : Database} (h : Reading base w) (hbase : base.Shows db) :
    w.Shows G db := by
  constructor
  · exact h.dbSize.trans hbase.pages
  · intro p hpos
    rcases le_or_gt p db.pages with hle | hgt
    · have hcontent := h.content hpos (hle.trans hbase.pages.ge)
      exact hcontent.sameButCounter.trans (hbase.page p hpos hle)
    · have hpast := filePage_past h.atRest.isIn.size.le (hbase.pages ▸ hgt)
      have hcontent : SamePage G (w.content G p) (filePage G w.fd.now p) := by
        cases hp : w.pager.pPCache.page p with
        | none =>
            rw [World.content_of_none hp]
            exact SamePage.refl _
        | some pPg =>
            rw [World.content_of_some hp]
            exact h.cache.data p pPg hp
      rw [db.blank p hgt]
      exact (hcontent.trans hpast.symm).sameButCounter

end SqliteFs
