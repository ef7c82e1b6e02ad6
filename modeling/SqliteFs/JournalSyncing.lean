import SqliteFs.JournalWriting

/-!
Syncing the journal. The magic and the number of records lie in one sector, so
the write that makes the current records count happens or does not happen; it
comes after they were synced, and after a stale header behind them was erased.
-/

namespace SqliteFs

open Lib Prog

variable {G : Geometry} {base : DbImage G} {w : World} {E : Code → World → Prop}

/-! ## Writes to one sector -/

/-- A write inside one sector of the file is never torn. -/
theorem ParentFile.tear_sector {f : ParentFile} {src : Bytes} {c len : Int} {kept : Kept}
    (hlen : len ≤ G.sectorSize) (hin : journalHdrOffset G c + len ≤ f.size) :
    f.tear G.sectorSize src (journalHdrOffset G c) len kept = f ∨
      f.tear G.sectorSize src (journalHdrOffset G c) len kept =
        f.put src (journalHdrOffset G c) len := by
  have hsector : ∀ i, journalHdrOffset G c ≤ i → i < journalHdrOffset G c + len →
      i / G.sectorSize = journalHdrOffset G c / G.sectorSize := by
    intro i hlo hhi
    have hsec := journalHdrOffset_sector G c (k := i - journalHdrOffset G c) (by omega) (by omega)
    rwa [add_sub_cancel] at hsec
  cases hkept : kept.sectors (journalHdrOffset G c / G.sectorSize) with
  | false =>
      left
      apply ParentFile.ext_inside (tear_size hin)
      intro i _
      rcases em (journalHdrOffset G c ≤ i ∧ i < journalHdrOffset G c + len) with hinside | hout
      · simp only [tear, hsector i hinside.1 hinside.2, hkept, Bool.false_eq_true, and_false,
          if_false]
      · exact tear_outside (by omega)
  | true =>
      right
      apply ParentFile.ext_inside
      · rw [tear_size hin, put_size, max_eq_left hin]
      · intro i hi
        have hlt : i < max f.size (min kept.size (journalHdrOffset G c + len)) := hi
        rcases em (journalHdrOffset G c ≤ i ∧ i < journalHdrOffset G c + len) with hinside | hout
        · simp only [tear, put, hsector i hinside.1 hinside.2, hkept, hlt, and_self, if_true]
        · rw [tear_outside (by omega), put_outside (by omega)]

/-- Of a write inside one sector everything or nothing survives. -/
theorem Store.Survives.sector_write {J : Store} {f g : ParentFile} {src : Bytes} {c len : Int}
    (hg : J.Survives G.sectorSize g) (hlen : len ≤ G.sectorSize)
    (hin : journalHdrOffset G c + len ≤ f.size)
    (hall : J.All fun v => v = f ∨ v = f.put src (journalHdrOffset G c) len) :
    g = f ∨ g = f.put src (journalHdrOffset G c) len := by
  have hputSize : (f.put src (journalHdrOffset G c) len).size = f.size := max_eq_left hin
  have hversion : J.All fun v => v.size = f.size := by
    intro v hv
    rcases hall v hv with rfl | rfl
    · rfl
    · exact hputSize
  have hsize : g.size = f.size :=
    le_antisymm (hg.size_le (hversion.mono fun _ hv => hv.le))
      (hg.le_size (hversion.mono fun _ hv => hv.ge))
  have hout : ∀ i, i < journalHdrOffset G c ∨ journalHdrOffset G c + len ≤ i → i < f.size →
      g.byte i = f.byte i := by
    intro i hi hlt
    apply hg.byte _ (by omega)
    intro v hv
    rcases hall v hv with rfl | rfl
    · rfl
    · exact ParentFile.put_outside hi
  obtain ⟨v, hv, hbyte⟩ := hg.sector_of (journalHdrOffset G c / G.sectorSize) hall
  have hsector : ∀ i, journalHdrOffset G c ≤ i → i < journalHdrOffset G c + len →
      i / G.sectorSize = journalHdrOffset G c / G.sectorSize := by
    intro i hlo hhi
    have hsec := journalHdrOffset_sector G c (k := i - journalHdrOffset G c) (by omega) (by omega)
    rwa [add_sub_cancel] at hsec
  have hsame : ∀ i, i < g.size → g.byte i = v.byte i := by
    intro i hi
    rcases em (journalHdrOffset G c ≤ i ∧ i < journalHdrOffset G c + len) with hinside | houtside
    · exact hbyte i (hsector i hinside.1 hinside.2) hi
    · rw [hout i (by omega) (by omega)]
      rcases hv with rfl | rfl
      · rfl
      · exact (ParentFile.put_outside (by omega)).symm
  rcases hv with rfl | rfl
  · exact Or.inl (ParentFile.ext_inside hsize hsame)
  · exact Or.inr (ParentFile.ext_inside (hsize.trans hputSize.symm) hsame)

/-! ## The header of the synced records -/

/-- The twelve bytes make the records count. -/
theorem OpenJournal.synced_header {segs : List Segment} {cur : List Int}
    (h : OpenJournal base segs cur w)
    (hlast : ¬MagicAt w.jfd.now (journalHdrOffset G w.pager.journalOff)) :
    HotJournal base (w.jfd.now.put (syncedHeader w.pager.nRec) w.pager.journalHdr 12)
      (segs ++ [⟨w.pager.cksumInit, cur⟩]) := by
  have hS := G.sectorSize_bounds
  have hle := h.le_hdr
  have hlt := h.hdr_lt_off
  have hoff := le_journalHdrOffset G w.pager.journalOff
  have hnow := h.hot (Store.survives_now _ _)
  have hstored : Stores (w.jfd.now.put (syncedHeader w.pager.nRec) w.pager.journalHdr 12)
      w.pager.journalHdr 12 (syncedHeader w.pager.nRec) := stores_put
  have hend : journalEnd G 0 (segs ++ [⟨w.pager.cksumInit, cur⟩]) = w.pager.journalOff := by
    rw [journalEnd_append, h.journalOff, h.journalHdr]
    rfl
  have hheader : HeaderAt base (w.jfd.now.put (syncedHeader w.pager.nRec) w.pager.journalHdr 12)
      w.pager.journalHdr ⟨w.pager.cksumInit, cur⟩ := by
    refine ⟨?_, ?_, h.body.same (sameOn_put (Or.inr le_rfl))⟩
    · intro k hlo hhi
      rw [hstored k hlo (by omega), syncedHeader, if_pos hhi]
    · rw [← h.nRec]
      apply hstored.part (by omega) (by omega)
      intro k hk _
      rw [syncedHeader, if_neg (by omega), add_sub_cancel_left]
  constructor
  · rw [segments_append]
    refine ⟨hnow.segments.same le_rfl (sameOn_put (Or.inl hle)), ?_⟩
    rw [Segments, ← h.journalHdr]
    refine ⟨hheader, ?_, trivial⟩
    exact h.records.same (sameOn_put (Or.inr (by omega)))
  · rw [hend]
    exact h.inside.trans (le_max_left _ _)
  · rw [hend]
    intro hmagic
    exact hlast (hmagic.same (sameOn_put (Or.inr (by omega))).symm)
  · rw [pagesOf_append]
    simpa only [pagesOf, List.flatMap_singleton] using h.pages

/-- The journal when the last header of a transaction was synced. -/
structure ClosedJournal (base : DbImage G) (segs : List Segment) (w : World) : Prop where
  hot : HotJournal base w.jfd.now segs
  jfd : w.jfd = .settled w.jfd.now
  ne_nil : segs ≠ []
  journalHdr : w.pager.journalHdr = journalEnd G 0 segs
  journalOff : w.pager.journalOff = journalEnd G 0 segs
  jfdOpen : w.pager.jfdOpen = true
  journalExists : w.journalExists = true

theorem ClosedJournal.live {segs : List Segment} (h : ClosedJournal base segs w) :
    LiveJournal base w.jfd.now w.pager segs [] := by
  refine ⟨h.hot.segments, h.hot.inside, ?_, Or.inr ⟨h.ne_nil, rfl, h.journalHdr, h.journalOff⟩⟩
  rw [List.append_nil]
  exact h.hot.pages

theorem ClosedJournal.durable {segs : List Segment} (h : ClosedJournal base segs w)
    (hfd : w.fd.All (Undoable base fun p => p ∈ pagesOf segs)) : Durable base w :=
  durable_of_hot h.hot hfd (fun hnil => absurd hnil h.ne_nil) h.jfd h.journalExists

/-- Erasing a stale header. -/
theorem wp_eraseNextHdr {segs : List Segment} {cur : List Int} {Q : Unit → World → Prop}
    (h : OpenJournal base segs cur w)
    (hok : ∀ J, OpenJournal base segs cur { w with jfd := J } →
      ¬MagicAt J.now (journalHdrOffset G w.pager.journalOff) → Q () { w with jfd := J })
    (herr : ∀ full J, OpenJournal base segs cur { w with jfd := J } →
      E (IoOutcome.code full) { w with jfd := J }) : wp (eraseNextHdr G) Q E w := by
  have hle := le_journalHdrOffset G w.pager.journalOff
  apply wp_bind
  apply wp_getPager
  apply wp_bind
  apply wp_sqlite3OsRead
  · apply wp_whenever
    · intro _
      apply wp_sqlite3OsWrite
      · apply hok _ (h.write_behind hle)
        intro hmagic
        have hbyte := magicAt_byte hmagic
        have hput : (w.jfd.now.put (fun _ => 0) (journalHdrOffset G w.pager.journalOff) 1).byte
            (journalHdrOffset G w.pager.journalOff) = 0 :=
          ParentFile.put_inside le_rfl (by omega)
        exact absurd (hput.symm.trans hbyte) (by decide)
      · exact fun full kept => herr full _ (h.write_behind hle)
    · intro hno
      apply hok _ h
      intro hmagic
      apply hno
      rw [Bool.and_eq_true, decide_eq_true_eq]
      exact ⟨hmagic.inside, isMagic_iff.mpr hmagic⟩
  · exact fun full => herr full _ h

/-! ## `syncJournal` -/

section Header

variable {segs : List Segment} {cur : List Int} {u : World}

theorem pagesOf_snoc (segs : List Segment) (seg : Segment) :
    pagesOf (segs ++ [seg]) = pagesOf segs ++ seg.pages := by
  rw [pagesOf_append]
  simp only [pagesOf, List.flatMap_singleton]

theorem snoc_ne_nil (segs : List Segment) (seg : Segment) : segs ++ [seg] ≠ [] :=
  List.append_ne_nil_of_right_ne_nil _ (List.cons_ne_nil _ _)

theorem Undoable.snoc {s : Store} (seg : Segment)
    (h : s.All (Undoable base fun p => p ∈ pagesOf segs)) :
    s.All (Undoable base fun p => p ∈ pagesOf (segs ++ [seg])) := by
  intro v hv
  apply (h v hv).mono
  intro p hp
  rw [pagesOf_snoc]
  exact List.mem_append_left _ hp

/-- Between the two syncs of the journal the current records count or do not. -/
theorem OpenJournal.durable_header (h : OpenJournal base segs cur w)
    (hlast : ¬MagicAt w.jfd.now (journalHdrOffset G w.pager.journalOff))
    (hfd : w.fd.All (Undoable base fun p => p ∈ pagesOf segs))
    (hexact : segs = [] → AtRest base w.fd) (hufd : u.fd = w.fd)
    (hexists : u.journalExists = true)
    (hall : u.jfd.All fun v => v = w.jfd.now ∨
      v = w.jfd.now.put (syncedHeader w.pager.nRec) w.pager.journalHdr 12)
    (hnow : u.jfd.now = w.jfd.now.put (syncedHeader w.pager.nRec) w.pager.journalHdr 12 ∨
      u.jfd.All fun v => v = w.jfd.now) : Durable base u := by
  have hS := G.sectorSize_bounds
  have hlt := h.hdr_lt_off
  have hin := h.inside
  have hold := h.hot (Store.survives_now _ _)
  have hnew := h.synced_header hlast
  constructor
  · intro g hg
    rw [h.journalHdr] at hall hnew hlt
    rw [hufd]
    rcases hg.sector_write (by omega) (by omega) hall with rfl | rfl
    · exact ⟨segs, hold, hfd, hexact⟩
    · exact ⟨_, hnew, Undoable.snoc _ hfd, fun hnil => absurd hnil (snoc_ne_nil _ _)⟩
  · intro hno
    rw [hexists] at hno
    cases hno
  · intro hzero
    rcases hnow with hput | hsame
    · rw [hput, magicAt_byte (hnew.magic (snoc_ne_nil _ _))] at hzero
      exact absurd hzero (by decide)
    · intro v hv hmagic
      rw [hsame.now, ← hsame v hv, magicAt_byte hmagic] at hzero
      exact absurd hzero (by decide)

/-- The open transaction can still be rolled back when the header is written. -/
theorem OpenJournal.live_header (h : OpenJournal base segs cur w) :
    LiveJournal base (w.jfd.now.put (syncedHeader w.pager.nRec) w.pager.journalHdr 12) w.pager
      segs cur := by
  have hS := G.sectorSize_bounds
  have hle := h.le_hdr
  have hlt := h.hdr_lt_off
  have hlive := h.live
  have hstored : Stores (w.jfd.now.put (syncedHeader w.pager.nRec) w.pager.journalHdr 12)
      w.pager.journalHdr 12 (syncedHeader w.pager.nRec) := stores_put
  have hnRec : Stores (w.jfd.now.put (syncedHeader w.pager.nRec) w.pager.journalHdr 12)
      (w.pager.journalHdr + 8) 4 (sqlite3Put4byte cur.length) := by
    rw [← h.nRec]
    apply hstored.part (by omega) (by omega)
    intro k hk _
    rw [syncedHeader, if_neg (by omega), add_sub_cancel_left]
  refine ⟨hlive.segments.same le_rfl (sameOn_put (Or.inl hle)),
    hlive.inside.trans (le_max_left _ _), h.pages,
    Or.inl ⟨h.journalHdr, h.journalOff, w.pager.cksumInit, ?_, ⟨_, hnRec, Or.inr rfl⟩, ?_, ?_⟩⟩
  · exact h.body.same (sameOn_put (Or.inr le_rfl))
  · exact h.records.same (sameOn_put (Or.inr (by omega)))
  · rw [← h.journalOff]
    exact h.inside.trans (le_max_left _ _)

/-- Syncing the records, then the header that makes them count. -/
theorem wp_syncHeader {k : Io Unit} {Q : Unit → World → Prop} (h : OpenJournal base segs cur w)
    (hlast : ¬MagicAt w.jfd.now (journalHdrOffset G w.pager.journalOff))
    (hfd : w.fd.All (Undoable base fun p => p ∈ pagesOf segs))
    (hexact : segs = [] → AtRest base w.fd)
    (hok : ∀ f, HotJournal base f (segs ++ [⟨w.pager.cksumInit, cur⟩]) →
      wp k Q E { w with jfd := .settled f })
    (herr : ∀ full J, Durable base { w with jfd := J } →
      LiveJournal base J.now w.pager segs cur → E (IoOutcome.code full) { w with jfd := J }) :
    wp (do
      sqlite3OsSync .jfd
      sqlite3OsWrite G .jfd (syncedHeader w.pager.nRec) 12 w.pager.journalHdr
      sqlite3OsSync .jfd
      k) Q E w := by
  have hS := G.sectorSize_bounds
  have hlt := h.hdr_lt_off
  have hin := h.inside
  have hfail : ∀ full J, (J.All fun v => v = w.jfd.now ∨
        v = w.jfd.now.put (syncedHeader w.pager.nRec) w.pager.journalHdr 12) →
      (J.now = w.jfd.now.put (syncedHeader w.pager.nRec) w.pager.journalHdr 12 ∨
        J.All fun v => v = w.jfd.now) → E (IoOutcome.code full) { w with jfd := J } := by
    intro full J hall hnow
    apply herr full J
    · exact h.durable_header hlast hfd hexact rfl h.journalExists hall hnow
    · rcases hall.now with hold | hput
      · rw [hold]
        exact h.live
      · rw [hput]
        exact h.live_header
  have hflushed : w.jfd.flush.All fun v => v = w.jfd.now := Versions.all_settled rfl
  have hflushed' : w.jfd.flush.All fun v => v = w.jfd.now ∨
      v = w.jfd.now.put (syncedHeader w.pager.nRec) w.pager.journalHdr 12 :=
    Versions.all_settled (Or.inl rfl)
  apply wp_bind
  apply wp_sqlite3OsSync
  · apply wp_bind
    apply wp_sqlite3OsWrite
    · apply wp_bind
      apply wp_sqlite3OsSync
      · exact hok _ (h.synced_header hlast)
      · intro full
        apply hfail full
        · exact hflushed'.replace (Or.inr rfl)
        · exact Or.inl rfl
    · intro full kept
      let src := syncedHeader w.pager.nRec
      have htear : w.jfd.now.tear G.sectorSize src w.pager.journalHdr 12 kept = w.jfd.now ∨
          w.jfd.now.tear G.sectorSize src w.pager.journalHdr 12 kept =
            w.jfd.now.put src w.pager.journalHdr 12 := by
        rw [h.journalHdr]
        apply ParentFile.tear_sector (by omega)
        rw [← h.journalHdr]
        omega
      apply hfail full
      · exact hflushed'.replace htear
      · rcases htear with hold | hput
        · exact Or.inr (hflushed.replace hold)
        · exact Or.inl hput
  · exact fun full => herr full _ (h.recoverable hfd hexact) h.live

end Header

/-- A new header behind the synced segments. -/
theorem wp_newHeader {segs : List Segment} {random : UInt32} {Q : Unit → World → Prop}
    (h : ClosedJournal base segs w) (horig : w.pager.dbOrigSize = base.pages)
    (hinJournal : ∃ l, w.pager.pInJournal = some l ∧ ∀ p, p ∈ l ↔ p ∈ pagesOf segs)
    (hfd : w.fd.All (Undoable base fun p => p ∈ pagesOf segs))
    (hok : ∀ J a b n c, OpenJournal base segs [] { w with
        jfd := J
        pager := { w.pager with journalHdr := a, journalOff := b, nRec := n, cksumInit := c } } →
      Q () { w with
        jfd := J
        pager := { w.pager with journalHdr := a, journalOff := b, nRec := n, cksumInit := c } })
    (herr : ∀ full u, Durable base u → u.fd = w.fd → E (IoOutcome.code full) u) :
    wp (do
      setPager fun p => { p with nRec := 0 }
      writeJournalHdr G random) Q E w := by
  have hsynced : SyncedAs G w.jfd.now segs w.jfd.now := ⟨SameOn.refl, h.hot.inside, h.hot.last⟩
  have hall : w.jfd.All (SyncedAs G w.jfd.now segs) := by
    rw [h.jfd]
    exact Versions.all_settled hsynced
  have hwritten : ∀ o, (w.jfd.write G.sectorSize o (zHeader G random w.pager.dbOrigSize)
      (journalHdrOffset G w.pager.journalOff) G.sectorSize).All
      (SyncedAs G w.jfd.now segs) := by
    intro o
    apply SyncedAs.write_all hall
    · rw [h.journalOff]
      exact le_journalHdrOffset G _
    · rw [h.journalOff]
      exact not_magicAt_header
  apply wp_bind
  apply wp_setPager
  apply wp_writeJournalHdr
  · apply hok
    have hheader : HeaderBody base (w.jfd.now.put (zHeader G random w.pager.dbOrigSize)
          (journalHdrOffset G w.pager.journalOff) G.sectorSize)
          (journalHdrOffset G w.pager.journalOff) random ∧
        Stores (w.jfd.now.put (zHeader G random w.pager.dbOrigSize)
          (journalHdrOffset G w.pager.journalOff) G.sectorSize)
          (journalHdrOffset G w.pager.journalOff + 8) 4 (sqlite3Put4byte 0) := by
      rw [horig]
      exact headerBody_put
    refine ⟨⟨_, h.hot.segments, hwritten .done⟩, ?_, ?_, rfl, hheader.1, hheader.2, trivial,
      le_max_right _ _, ?_, ?_, h.jfdOpen, h.journalExists⟩
    · simp only [h.journalOff]
    · simp only [recordsEnd, List.length_nil, Nat.cast_zero, mul_zero, add_zero]
    · rw [List.append_nil]
      exact h.hot.pages
    · rw [List.append_nil]
      exact hinJournal
  · intro full kept
    apply herr full
    · constructor
      · intro g hg
        exact ⟨segs, SyncedAs.survives (hwritten _) h.hot.segments h.hot.pages hg, hfd,
          fun hnil => absurd hnil h.ne_nil⟩
      · intro hno
        rw [h.journalExists] at hno
        cases hno
      · intro hzero
        have hmagic := (SyncedAs.survives (hwritten (.fails full kept)) h.hot.segments h.hot.pages
          (Store.survives_now _ _)).magic h.ne_nil
        have hbyte := magicAt_byte hmagic
        exact absurd (hzero.symm.trans hbyte) (by decide)
    · rfl

/-- The pager when its journal is synced. -/
def Pager.synced (p : Pager) : Pager :=
  { p with pPCache := p.pPCache.sqlite3PcacheClearSyncFlags, eState := .writerDbmod }

/-- The records become part of the journal. An error leaves the database file
recoverable, and, when no new header was asked for, the transaction as it was. -/
theorem wp_syncJournal {segs : List Segment} {cur : List Int} {random : UInt32} {newHdr : Bool}
    {Q : Unit → World → Prop} (h : OpenJournal base segs cur w) (hcode : w.pager.errCode = none)
    (horig : w.pager.dbOrigSize = base.pages)
    (hfd : w.fd.All (Undoable base fun p => p ∈ pagesOf segs))
    (hexact : segs = [] → AtRest base w.fd)
    (hnew : newHdr = true → ∀ J a b n c,
      OpenJournal base (segs ++ [⟨w.pager.cksumInit, cur⟩]) [] { w with
        jfd := J
        pager := { w.pager with journalHdr := a, journalOff := b, nRec := n, cksumInit := c } } →
      Q () { w with
        jfd := J
        pager := ({ w.pager with
          journalHdr := a, journalOff := b, nRec := n, cksumInit := c }).synced })
    (hclosed : newHdr = false → ∀ J a,
      ClosedJournal base (segs ++ [⟨w.pager.cksumInit, cur⟩]) { w with
        jfd := J, pager := { w.pager with journalHdr := a } } →
      Q () { w with jfd := J, pager := ({ w.pager with journalHdr := a }).synced })
    (herr : ∀ full u, Durable base u → u.fd = w.fd →
      (newHdr = false → LiveJournal base u.jfd.now w.pager segs cur ∧ u.pager = w.pager ∧
        u.journalExists = true) → E (IoOutcome.code full) u) :
    wp (syncJournal G random newHdr) Q E w := by
  have hend : journalEnd G 0 (segs ++ [⟨w.pager.cksumInit, cur⟩]) = w.pager.journalOff := by
    rw [journalEnd_append, h.journalOff, h.journalHdr]
    rfl
  have hsnoc := Undoable.snoc ⟨w.pager.cksumInit, cur⟩ hfd
  -- what remains to be done when the records count
  have hcounted : ∀ f, HotJournal base f (segs ++ [⟨w.pager.cksumInit, cur⟩]) → wp (do
        setPager fun p => { p with journalHdr := p.journalOff }
        whenever newHdr (do
          setPager fun p => { p with nRec := 0 }
          writeJournalHdr G random))
      (fun _ t => wp (setPager Pager.synced) Q E t) E { w with jfd := .settled f } := by
    intro f hf
    have hset : ClosedJournal base (segs ++ [⟨w.pager.cksumInit, cur⟩]) { w with
        jfd := .settled f
        pager := { w.pager with journalHdr := w.pager.journalOff } } :=
      ⟨hf, rfl, snoc_ne_nil _ _, hend.symm, hend.symm, h.jfdOpen, h.journalExists⟩
    apply wp_bind
    apply wp_setPager
    apply wp_whenever
    · intro hnewHdr
      apply wp_newHeader hset horig _ hsnoc
      · exact fun J a b n c hJ => wp_setPager (hnew hnewHdr J a b n c hJ)
      · intro full u hu hufd
        apply herr full u hu hufd
        intro hfalse
        rw [hnewHdr] at hfalse
        cases hfalse
      · rw [pagesOf_snoc]
        exact h.inJournal
    · intro hno
      exact wp_setPager (hclosed (Bool.eq_false_iff.mpr hno) _ _ hset)
  have hfail : ∀ full J, Durable base { w with jfd := J } →
      LiveJournal base J.now w.pager segs cur → E (IoOutcome.code full) { w with jfd := J } :=
    fun full J hJ hlive => herr full _ hJ rfl fun _ => ⟨hlive, rfl, h.journalExists⟩
  apply wp_bind
  apply wp_getPager
  simp only [hcode]
  apply wp_bind
  apply wp_whenever
  · intro _
    apply wp_bind
    apply wp_eraseNextHdr h
    · intro J hJ hlast
      exact wp_syncHeader hJ hlast hfd hexact hcounted hfail
    · intro full J hJ
      exact hfail full J (hJ.recoverable hfd hexact) hJ.live
  · exact fun hno => absurd h.jfdOpen hno

end SqliteFs
