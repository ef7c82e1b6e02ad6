import SqliteFs.ReadTransactions

/-!
Writing the journal. Headers and records go behind what was synced; a version
of the journal from which the device may come back after a loss of power has
the synced segments and no header behind them, until the twelve bytes that
make the current records count are written.
-/

namespace SqliteFs

open Lib Prog

variable {G : Geometry} {base : DbImage G} {w : World} {E : Code → World → Prop}

/-! ## Writes that keep the synced segments -/

variable (G) in
/-- A version of the journal with the synced segments of `ref`. -/
structure SyncedAs (ref : ParentFile) (segs : List Segment) (v : ParentFile) : Prop where
  same : SameOn ref v 0 (journalEnd G 0 segs)
  inside : journalEnd G 0 segs ≤ v.size
  last : ¬MagicAt v (journalHdrOffset G (journalEnd G 0 segs))

theorem MagicAt.same {f g : ParentFile} {hdr : Int} (h : MagicAt f hdr)
    (hs : SameOn f g hdr (hdr + 8)) : MagicAt g hdr :=
  Stores.same h hs

/-- A torn write has the magic only if the file had it, or a whole write has. -/
theorem not_magicAt_tear {f : ParentFile} {src : Bytes} {off len c : Int} {kept : Kept}
    (hold : ¬MagicAt f (journalHdrOffset G c))
    (hnew : ¬MagicAt (f.put src off len) (journalHdrOffset G c)) :
    ¬MagicAt (f.tear G.sectorSize src off len kept) (journalHdrOffset G c) := by
  have hS := G.sectorSize_bounds
  intro hmagic
  have hin := hmagic.inside
  have hbyte : ∀ i, journalHdrOffset G c ≤ i → i < journalHdrOffset G c + 8 →
      (f.tear G.sectorSize src off len kept).byte i =
        if kept.sectors (journalHdrOffset G c / G.sectorSize) = true then
          (f.put src off len).byte i
        else f.byte i := by
    intro i hlo hhi
    have hsector : (journalHdrOffset G c + (i - journalHdrOffset G c)) / G.sectorSize =
        journalHdrOffset G c / G.sectorSize :=
      journalHdrOffset_sector G c (by omega) (by omega)
    rw [add_sub_cancel] at hsector
    have hlt : i < max f.size (min kept.size (off + len)) := by
      change _ ≤ max f.size (min kept.size (off + len)) at hin
      omega
    simp only [ParentFile.tear, ParentFile.put, hsector, hlt, true_and]
  cases hkept : kept.sectors (journalHdrOffset G c / G.sectorSize) with
  | true =>
      apply hnew
      apply hmagic.same
      intro i hlo hhi
      rw [hbyte i hlo hhi, if_pos hkept]
  | false =>
      apply hold
      apply hmagic.same
      intro i hlo hhi
      rw [hbyte i hlo hhi, if_neg (by rw [hkept]; exact Bool.false_ne_true)]

/-- Writing behind the synced segments, without writing a magic. -/
theorem SyncedAs.write_all {J : Store} {o : IoOutcome} {ref : ParentFile} {segs : List Segment}
    {src : Bytes} {off len : Int} (h : J.All (SyncedAs G ref segs))
    (hoff : journalEnd G 0 segs ≤ off)
    (hnew : ¬MagicAt (J.now.put src off len) (journalHdrOffset G (journalEnd G 0 segs))) :
    (J.write G.sectorSize o src off len).All (SyncedAs G ref segs) := by
  have hnow := h.now
  apply Store.write_all h
  · intro _
    refine ⟨?_, hnow.inside.trans (le_max_left _ _), hnew⟩
    exact hnow.same.trans (sameOn_put (Or.inl hoff))
  · intro kept
    refine ⟨?_, hnow.inside.trans ParentFile.le_tear_size, not_magicAt_tear hnow.last hnew⟩
    exact hnow.same.trans fun i _ hi => (ParentFile.tear_outside (by omega)).symm

/-- What survives of a journal that is being written. -/
theorem SyncedAs.survives {J : Store} {ref g : ParentFile} {segs : List Segment}
    (h : J.All (SyncedAs G ref segs)) (hsegs : Segments base ref 0 segs)
    (hpages : Journaled base (pagesOf segs)) (hg : J.Survives G.sectorSize g) :
    HotJournal base g segs := by
  have hsize : journalEnd G 0 segs ≤ g.size := hg.le_size (h.mono fun v hv => hv.inside)
  refine ⟨hsegs.same le_rfl ?_, hsize, hg.not_magicAt (h.mono fun v hv => hv.last), hpages⟩
  intro i hlo hhi
  exact (hg.byte (h.mono fun v hv => (hv.same i hlo hhi).symm) (by omega)).symm

/-! ## The journal that is being written -/

/-- The current header is open: its magic and its number of records are still
zero, the records of `cur` are behind it. -/
structure OpenJournal (base : DbImage G) (segs : List Segment) (cur : List Int) (w : World) :
    Prop where
  synced : ∃ ref, Segments base ref 0 segs ∧ w.jfd.All (SyncedAs G ref segs)
  journalHdr : w.pager.journalHdr = journalHdrOffset G (journalEnd G 0 segs)
  journalOff : w.pager.journalOff = recordsEnd G w.pager.journalHdr cur
  nRec : w.pager.nRec = cur.length
  body : HeaderBody base w.jfd.now w.pager.journalHdr w.pager.cksumInit
  zero : Stores w.jfd.now (w.pager.journalHdr + 8) 4 (sqlite3Put4byte 0)
  records : RecordsAt base w.jfd.now (w.pager.journalHdr + G.sectorSize) w.pager.cksumInit cur
  inside : w.pager.journalOff ≤ w.jfd.now.size
  pages : Journaled base (pagesOf segs ++ cur)
  inJournal : ∃ l, w.pager.pInJournal = some l ∧ ∀ p, p ∈ l ↔ p ∈ pagesOf segs ++ cur
  jfdOpen : w.pager.jfdOpen = true
  journalExists : w.journalExists = true

namespace OpenJournal

variable {segs : List Segment} {cur : List Int}

theorem le_hdr (h : OpenJournal base segs cur w) : journalEnd G 0 segs ≤ w.pager.journalHdr := by
  rw [h.journalHdr]
  exact le_journalHdrOffset G _

theorem hdr_lt_off (h : OpenJournal base segs cur w) :
    w.pager.journalHdr + G.sectorSize ≤ w.pager.journalOff := by
  rw [h.journalOff]
  exact recordsEnd_ge _ _

theorem hot (h : OpenJournal base segs cur w) {g : ParentFile}
    (hg : w.jfd.Survives G.sectorSize g) : HotJournal base g segs := by
  obtain ⟨ref, hsegs, hall⟩ := h.synced
  exact SyncedAs.survives hall hsegs h.pages.append.1 hg

theorem recoverable (h : OpenJournal base segs cur w)
    (hfd : w.fd.All (Undoable base fun p => p ∈ pagesOf segs))
    (hexact : segs = [] → AtRest base w.fd) : Durable base w := by
  have hnow := h.hot (Store.survives_now _ _)
  constructor
  · exact fun g hg => ⟨segs, h.hot hg, hfd, hexact⟩
  · intro hno
    rw [h.journalExists] at hno
    cases hno
  · intro hzero
    have hcold : segs = [] := by
      apply hnow.eq_nil
      intro hmagic
      rw [magicAt_byte hmagic] at hzero
      exact absurd hzero (by decide)
    obtain ⟨ref, -, hall⟩ := h.synced
    rw [hcold] at hall
    exact hall.mono fun v hv => hv.last

/-- The journal can be rolled back as it is. -/
theorem live (h : OpenJournal base segs cur w) : LiveJournal base w.jfd.now w.pager segs cur := by
  have hnow := h.hot (Store.survives_now _ _)
  refine ⟨hnow.segments, hnow.inside, h.pages, Or.inl ⟨h.journalHdr, h.journalOff, _, h.body,
    ⟨0, h.zero, Or.inl rfl⟩, h.records, ?_⟩⟩
  rw [← h.journalOff]
  exact h.inside

/-- The bytes of the journal up to `journalOff` are what counts of it. -/
theorem congr {u : World} (h : OpenJournal base segs cur w)
    (hall : ∀ ref, w.jfd.All (SyncedAs G ref segs) → u.jfd.All (SyncedAs G ref segs))
    (hsame : SameOn w.jfd.now u.jfd.now w.pager.journalHdr w.pager.journalOff)
    (hsize : w.pager.journalOff ≤ u.jfd.now.size) (hexists : u.journalExists = true)
    (hpager : u.pager.journalHdr = w.pager.journalHdr ∧ u.pager.journalOff = w.pager.journalOff ∧
      u.pager.nRec = w.pager.nRec ∧ u.pager.cksumInit = w.pager.cksumInit ∧
      u.pager.pInJournal = w.pager.pInJournal ∧ u.pager.jfdOpen = w.pager.jfdOpen) :
    OpenJournal base segs cur u := by
  have hS := G.sectorSize_bounds
  have hoff := h.hdr_lt_off
  obtain ⟨hhdr, hoff', hnRec, hck, hin, hopen⟩ := hpager
  obtain ⟨ref, hsegs, hold⟩ := h.synced
  have hrecords : RecordsAt base u.jfd.now (w.pager.journalHdr + G.sectorSize) w.pager.cksumInit
      cur := by
    apply h.records.same (hsame.mono (by omega) _)
    rw [h.journalOff]
    exact le_rfl
  constructor
  · exact ⟨ref, hsegs, hall ref hold⟩
  · rw [hhdr, h.journalHdr]
  · rw [hoff', hhdr, h.journalOff]
  · rw [hnRec, h.nRec]
  · rw [hhdr, hck]
    exact h.body.same (hsame.mono (by omega) (by omega))
  · rw [hhdr]
    exact h.zero.same (hsame.mono (by omega) (by omega))
  · rw [hhdr, hck]
    exact hrecords
  · rw [hoff']
    exact hsize
  · exact h.pages
  · rw [hin]
    exact h.inJournal
  · rw [hopen, h.jfdOpen]
  · exact hexists

/-- Nothing but the journal and its fields counts. -/
theorem frame {u : World} (h : OpenJournal base segs cur w) (hjfd : u.jfd = w.jfd)
    (hexists : u.journalExists = w.journalExists)
    (hpager : u.pager.journalHdr = w.pager.journalHdr ∧ u.pager.journalOff = w.pager.journalOff ∧
      u.pager.nRec = w.pager.nRec ∧ u.pager.cksumInit = w.pager.cksumInit ∧
      u.pager.pInJournal = w.pager.pInJournal ∧ u.pager.jfdOpen = w.pager.jfdOpen) :
    OpenJournal base segs cur u := by
  apply h.congr _ _ _ (hexists.trans h.journalExists) hpager
  · rw [hjfd]
    exact fun _ => id
  · rw [hjfd]
    exact SameOn.refl
  · rw [hjfd]
    exact h.inside

/-- Writing behind the records, whole or in part. -/
theorem write_behind {o : IoOutcome} {src : Bytes} {off len : Int}
    (h : OpenJournal base segs cur w) (hoff : w.pager.journalOff ≤ off) :
    OpenJournal base segs cur { w with jfd := w.jfd.write G.sectorSize o src off len } := by
  have hS := G.sectorSize_bounds
  have hle := h.le_hdr
  have hlt := h.hdr_lt_off
  refine h.congr ?_ ?_ ?_ h.journalExists ⟨rfl, rfl, rfl, rfl, rfl, rfl⟩
  · intro ref hall
    apply SyncedAs.write_all hall (by omega)
    intro hmagic
    apply hall.now.last
    apply hmagic.same
    rw [← h.journalHdr]
    exact (sameOn_put (Or.inl (by omega))).symm
  · exact sameOn_write (Or.inl hoff)
  · cases o with
    | done => exact h.inside.trans (le_max_left _ _)
    | fails full kept => exact h.inside.trans ParentFile.le_tear_size

end OpenJournal

/-! ## Headers -/

/-- What `writeJournalHdr` leaves in the pager. -/
def Pager.atHeader (p : Pager) (G : Geometry) (random : UInt32) : Pager :=
  { p with
    journalHdr := journalHdrOffset G p.journalOff
    journalOff := journalHdrOffset G p.journalOff + G.sectorSize
    cksumInit := random }

theorem wp_writeJournalHdr {random : UInt32} {Q : Unit → World → Prop}
    (hok : Q () { w with
      pager := w.pager.atHeader G random
      jfd := w.jfd.write G.sectorSize .done (zHeader G random w.pager.dbOrigSize)
        (journalHdrOffset G w.pager.journalOff) G.sectorSize })
    (herr : ∀ full kept, E (IoOutcome.code full) { w with
      pager := w.pager.atHeader G random
      jfd := w.jfd.write G.sectorSize (.fails full kept)
        (zHeader G random w.pager.dbOrigSize) (journalHdrOffset G w.pager.journalOff)
        G.sectorSize }) :
    wp (writeJournalHdr G random) Q E w := by
  apply wp_bind
  apply wp_getPager
  apply wp_bind
  apply wp_setPager
  apply wp_bind
  apply wp_attempt
  apply wp_sqlite3OsWrite
  · apply wp_bind
    apply wp_setPager
    exact wp_settle hok
  · intro full kept
    apply wp_bind
    apply wp_setPager
    exact wp_settle (herr full kept)

/-- A new header has no magic. -/
theorem not_magicAt_header {f : ParentFile} {random : UInt32} {dbOrigSize hdr : Int} :
    ¬MagicAt (f.put (zHeader G random dbOrigSize) hdr G.sectorSize) hdr := by
  have hS := G.sectorSize_bounds
  intro hmagic
  have hbyte := magicAt_byte hmagic
  have hzero : (f.put (zHeader G random dbOrigSize) hdr G.sectorSize).byte hdr = 0 := by
    have hput : (f.put (zHeader G random dbOrigSize) hdr G.sectorSize).byte hdr =
        zHeader G random dbOrigSize (hdr - hdr) :=
      ParentFile.put_inside le_rfl (by omega)
    rw [hput, sub_self]
    rfl
  rw [hzero] at hbyte
  exact absurd hbyte (by decide)

/-- The fields of a new header. -/
theorem headerBody_put {f : ParentFile} {random : UInt32} {hdr : Int} :
    HeaderBody base (f.put (zHeader G random base.pages) hdr G.sectorSize) hdr random ∧
      Stores (f.put (zHeader G random base.pages) hdr G.sectorSize) (hdr + 8) 4
        (sqlite3Put4byte 0) := by
  have hS := G.sectorSize_bounds
  have hstored : Stores (f.put (zHeader G random base.pages) hdr G.sectorSize) hdr
      G.sectorSize (zHeader G random base.pages) := stores_put
  refine ⟨⟨?_, ?_, ?_, ?_⟩, ?_⟩
  all_goals
    apply hstored.part (by omega) (by omega)
    intro k hlo hhi
    simp only [zHeader]
  · rw [if_neg (by omega), if_pos (by omega), add_sub_cancel_left]
  · rw [if_neg (by omega), if_neg (by omega), if_pos (by omega), add_sub_cancel_left]
  · rw [if_neg (by omega), if_neg (by omega), if_neg (by omega), if_pos (by omega),
      add_sub_cancel_left]
  · rw [if_neg (by omega), if_neg (by omega), if_neg (by omega), if_neg (by omega),
      if_pos (by omega), add_sub_cancel_left]
  · rw [if_pos (by omega)]
    simp only [sqlite3Put4byte, Int.zero_ediv, Int.zero_emod]
    rfl

/-! ## Records -/

/-- The three writes of a record put it down. -/
theorem recordAt_put {f : ParentFile} {off pgno : Int} {cksumInit : UInt32} {pData : Bytes}
    (hdata : SamePage G pData (base.page pgno)) :
    RecordAt base (((f.put (sqlite3Put4byte pgno) off 4).put pData (off + 4) G.pageSize).put
      (sqlite3Put4byte (pagerCksum G cksumInit pData).toNat) (off + G.pageSize + 4) 4)
      off cksumInit pgno := by
  have hP := G.pageSize_bounds
  refine ⟨?_, ?_, ?_⟩
  · apply Stores.same _ (sameOn_put (Or.inl (by omega)))
    exact stores_put.same (sameOn_put (Or.inl le_rfl))
  · apply Stores.same _ (sameOn_put (Or.inl (by omega)))
    intro k hlo hhi
    rw [← hdata k hlo hhi]
    exact stores_put k hlo hhi
  · rw [pagerCksum_congr hdata]
    exact stores_put

/-- The pages of the journal when one more is recorded. -/
theorem Journaled.snoc {pages cur : List Int} {pgno : Int} (h : Journaled base (pages ++ cur))
    (hfresh : pgno ∉ pages ++ cur) (hhas : base.Has pgno) :
    Journaled base (pages ++ (cur ++ [pgno])) := by
  rw [← List.append_assoc]
  constructor
  · apply List.Nodup.append h.nodup (List.nodup_singleton _)
    intro p hp hp'
    rw [List.mem_singleton] at hp'
    exact hfresh (hp' ▸ hp)
  · intro p hp
    rcases List.mem_append.mp hp with hp | hp
    · exact h.has p hp
    · rw [List.mem_singleton.mp hp]
      exact hhas

/-- A record behind the others becomes one of them. -/
theorem OpenJournal.snoc {segs : List Segment} {cur : List Int} {u : World} {pgno : Int}
    (h : OpenJournal base segs cur w) (hfresh : pgno ∉ pagesOf segs ++ cur) (hhas : base.Has pgno)
    (hrec : RecordAt base w.jfd.now w.pager.journalOff w.pager.cksumInit pgno)
    (hin : w.pager.journalOff + G.journalPgSz ≤ w.jfd.now.size) (hjfd : u.jfd = w.jfd)
    (hexists : u.journalExists = w.journalExists)
    (hpager : u.pager.journalHdr = w.pager.journalHdr ∧
      u.pager.journalOff = w.pager.journalOff + G.journalPgSz ∧
      u.pager.nRec = w.pager.nRec + 1 ∧ u.pager.cksumInit = w.pager.cksumInit ∧
      u.pager.pInJournal = w.pager.pInJournal.map (pgno :: ·) ∧
      u.pager.jfdOpen = w.pager.jfdOpen) : OpenJournal base segs (cur ++ [pgno]) u := by
  obtain ⟨hhdr, hoff, hnRec, hck, hinJ, hopen⟩ := hpager
  constructor
  · rw [hjfd]
    exact h.synced
  · rw [hhdr, h.journalHdr]
  · rw [hoff, hhdr, h.journalOff]
    simp only [recordsEnd, List.length_append, List.length_singleton]
    push_cast
    ring
  · rw [hnRec, h.nRec]
    simp only [List.length_append, List.length_singleton]
    push_cast
    rfl
  · rw [hjfd, hhdr, hck]
    exact h.body
  · rw [hjfd, hhdr]
    exact h.zero
  · rw [hjfd, hhdr, hck]
    apply h.records.snoc
    have hoffset := h.journalOff
    simp only [recordsEnd] at hoffset
    rwa [← hoffset]
  · rw [hjfd, hoff]
    exact hin
  · exact h.pages.snoc hfresh hhas
  · obtain ⟨l, hl, hmem⟩ := h.inJournal
    refine ⟨pgno :: l, by rw [hinJ, hl]; rfl, ?_⟩
    intro p
    rw [List.mem_cons, hmem p, ← List.append_assoc, List.mem_append (s := pagesOf segs ++ cur),
      List.mem_singleton, or_comm]
  · rw [hopen, h.jfdOpen]
  · rw [hexists, h.journalExists]

/-- A page that is put into the journal is marked to need a sync. -/
def Pager.marked (p : Pager) (pgno : Int) : Pager :=
  { p with pPCache := p.pPCache.update pgno fun pPg => { pPg with needSync := true } }

theorem wp_pagerAddPageToRollbackJournal {segs : List Segment} {cur : List Int} {pgno : Int}
    {pData : Bytes} {Q : Unit → World → Prop} (h : OpenJournal base segs cur w)
    (hfresh : pgno ∉ pagesOf segs ++ cur) (hhas : base.Has pgno)
    (hdata : SamePage G pData (base.page pgno))
    (hok : ∀ J a n l, OpenJournal base segs (cur ++ [pgno]) { w with
        jfd := J
        pager := { w.pager.marked pgno with journalOff := a, nRec := n, pInJournal := l } } →
      Q () { w with
        jfd := J
        pager := { w.pager.marked pgno with journalOff := a, nRec := n, pInJournal := l } })
    (herr : ∀ full J, OpenJournal base segs cur { w with
        jfd := J
        pager := w.pager.marked pgno } →
      E (IoOutcome.code full) { w with jfd := J, pager := w.pager.marked pgno }) :
    wp (pagerAddPageToRollbackJournal G pgno pData) Q E w := by
  have hP := G.pageSize_bounds
  have hsz : G.journalPgSz = G.pageSize + 8 := rfl
  have hmarked : OpenJournal base segs cur { w with pager := w.pager.marked pgno } :=
    h.frame rfl rfl ⟨rfl, rfl, rfl, rfl, rfl, rfl⟩
  apply wp_bind
  apply wp_getPager
  apply wp_bind
  apply wp_setPager
  apply wp_bind
  apply wp_sqlite3OsWrite
  · -- the three parts of the record are written behind the records
    let J₁ := w.jfd.write G.sectorSize .done (sqlite3Put4byte pgno) w.pager.journalOff 4
    let J₂ := J₁.write G.sectorSize .done pData (w.pager.journalOff + 4) G.pageSize
    let J₃ := J₂.write G.sectorSize .done
      (sqlite3Put4byte (pagerCksum G w.pager.cksumInit pData).toNat)
      (w.pager.journalOff + G.pageSize + 4) 4
    have hfirst : OpenJournal base segs cur { w with
        jfd := J₁, pager := w.pager.marked pgno } :=
      hmarked.write_behind le_rfl
    apply wp_bind
    apply wp_sqlite3OsWrite
    · have hsecond : OpenJournal base segs cur { w with
          jfd := J₂, pager := w.pager.marked pgno } :=
        hfirst.write_behind (Int.le_add_of_nonneg_right (by norm_num))
      apply wp_bind
      apply wp_sqlite3OsWrite
      · have hthird : OpenJournal base segs cur { w with
            jfd := J₃, pager := w.pager.marked pgno } := by
          apply hsecond.write_behind
          simp only [Pager.marked]
          omega
        apply wp_setPager
        apply hok
        apply hthird.snoc hfresh hhas
        · exact recordAt_put hdata
        · have hlong : w.pager.journalOff + G.pageSize + 4 + 4 ≤ J₃.now.size := le_max_right _ _
          simp only [Pager.marked]
          omega
        · rfl
        · rfl
        · exact ⟨rfl, rfl, rfl, rfl, rfl, rfl⟩
      · intro full kept
        exact herr full _ (hsecond.write_behind (by simp only [Pager.marked]; omega))
    · intro full kept
      exact herr full _ (hfirst.write_behind (Int.le_add_of_nonneg_right (by norm_num)))
  · intro full kept
    exact herr full _ (hmarked.write_behind le_rfl)

end SqliteFs
