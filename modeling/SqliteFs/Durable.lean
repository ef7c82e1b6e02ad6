import SqliteFs.Rollback

/-!
What a loss of power leaves. A world is durable for an image if, whatever
survives of the journal, the database file can be rolled back to the image
with it; every state of the pager between two calls is. A file that survives
may be longer than the image, which then is the image of a longer one.
-/

namespace SqliteFs

open Lib

variable {G : Geometry} {base : DbImage G} {w : World}

/-! ## Images that grow at their end -/

/-- The pages of `base` are the first pages of `long`. -/
structure DbImage.Extends (long base : DbImage G) : Prop where
  pages : base.pages ≤ long.pages
  byte : ∀ i, 0 ≤ i → i < G.pageSize * base.pages → long.byte i = base.byte i

namespace DbImage

variable {long mid : DbImage G}

theorem Extends.refl (base : DbImage G) : base.Extends base := ⟨le_rfl, fun _ _ _ => rfl⟩

/-- The pages that both images have are the same. -/
theorem Extends.page (h : long.Extends base) {pgno k : Int} (hpos : 1 ≤ pgno)
    (hle : pgno ≤ base.pages) (hlo : 0 ≤ k) (hhi : k < G.pageSize) :
    long.page pgno k = base.page pgno k := by
  have hP := G.pageSize_bounds
  have hofst := pageOfst_nonneg (G := G) hpos
  have hend : pageOfst G pgno + G.pageSize ≤ G.pageSize * base.pages := by
    rw [pageOfst_end]
    exact mul_le_mul_of_nonneg_left hle (by omega)
  exact h.byte _ (by omega) (by omega)

/-- The image of a file of whole pages. -/
def ofFile (f : ParentFile) (n : Int) (hpos : 1 ≤ n) (hn : ValidPages G n) : DbImage G where
  pages := n
  byte := f.byte
  pages_pos := hpos
  pages_le := hn.1
  pages_ne := hn.2

end DbImage

/-- A file of whole pages that agrees with an image is the image of a longer one. -/
theorem Undoable.rebase {f : ParentFile} (h : Undoable base (fun _ => False) f)
    (hwhole : WholePages G f.size) : ∃ long : DbImage G, long.Extends base ∧ long.IsIn f := by
  have hP := G.pageSize_bounds
  obtain ⟨n, hsize, hvalid⟩ := hwhole
  have hle : base.pages ≤ n := by
    have hlong := h.long
    rw [hsize] at hlong
    exact le_of_mul_le_mul_left hlong (by omega)
  refine ⟨.ofFile f n (base.pages_pos.trans hle) hvalid, ⟨hle, ?_⟩,
    ⟨⟨hsize.ge, ?_⟩, hsize⟩⟩
  · exact fun i hlo hhi => h.agrees i ⟨hlo, hhi⟩ not_false
  · exact fun _ _ _ => rfl

/-! ## Journals that survive -/

theorem magicAt_byte {f : ParentFile} {hdr : Int} (h : MagicAt f hdr) : f.byte hdr = 0xd9 := by
  have hfirst := h 0 le_rfl (by norm_num)
  rwa [add_zero] at hfirst

/-- A journal with a segment has a magic at its start. -/
theorem HotJournal.magic {f : ParentFile} {segs : List Segment} (h : HotJournal base f segs)
    (hne : segs ≠ []) : MagicAt f 0 := by
  cases segs with
  | nil => exact absurd rfl hne
  | cons seg segs => exact h.segments.1.magic

theorem HotJournal.eq_nil {f : ParentFile} {segs : List Segment} (h : HotJournal base f segs)
    (hcold : ¬MagicAt f 0) : segs = [] := by
  by_contra hne
  exact hcold (h.magic hne)

theorem hotJournal_nil {f : ParentFile} (hcold : ¬MagicAt f 0) : HotJournal base f [] :=
  ⟨trivial, f.size_nonneg, hcold, ⟨List.nodup_nil, fun _ hp => absurd hp List.not_mem_nil⟩⟩

/-- A magic is inside the file. -/
theorem MagicAt.inside {f : ParentFile} {hdr : Int} (h : MagicAt f hdr) : hdr + 8 ≤ f.size := by
  have hlast := h 7 (by norm_num) (by norm_num)
  by_contra hshort
  rw [f.zero_past (hdr + 7) (by omega)] at hlast
  exact absurd hlast (by decide)

/-- Where no version has a magic, none survives: a header is in one sector. -/
theorem Store.Survives.not_magicAt {J : Store} {g : ParentFile} {c : Int}
    (hg : J.Survives G.sectorSize g) (h : J.All fun v => ¬MagicAt v (journalHdrOffset G c)) :
    ¬MagicAt g (journalHdrOffset G c) := by
  have hS := G.sectorSize_bounds
  intro hmagic
  have hin := hmagic.inside
  obtain ⟨v, hv, hbyte⟩ := hg.sector_of (journalHdrOffset G c / G.sectorSize) h
  apply hv
  intro k hlo hhi
  rw [← hbyte _ (journalHdrOffset_sector G c hlo (by omega)) (by omega)]
  exact hmagic k hlo hhi

/-- `J` can be lost power over at any time: the journal that is left undoes
what may be in `D`. -/
def Recoverable (base : DbImage G) (D J : Store) : Prop :=
  ∀ g, J.Survives G.sectorSize g → ∃ segs, HotJournal base g segs ∧
    D.All (Undoable base fun p => p ∈ pagesOf segs) ∧ (segs = [] → AtRest base D)

/-- A journal that is not hot in any version undoes nothing. -/
theorem AtRest.recoverable {D J : Store} (h : AtRest base D) (hcold : J.All fun v => ¬MagicAt v 0) :
    Recoverable base D J :=
  fun _ hg => ⟨[], hotJournal_nil (hg.not_magicAt (c := 0) hcold), h.undoable _, fun _ => h⟩

/-- What holds of the two files in every state of the pager. -/
structure Durable (base : DbImage G) (w : World) : Prop where
  recoverable : Recoverable base w.fd w.jfd
  absent : w.journalExists = false → w.jfd = .settled .blank
  cold : w.jfd.now.byte 0 = 0 → w.jfd.All fun v => ¬MagicAt v 0

namespace Durable

/-- The journal that is there now. -/
theorem now (h : Durable base w) : ∃ segs, HotJournal base w.jfd.now segs ∧
    w.fd.All (Undoable base fun p => p ∈ pagesOf segs) ∧ (segs = [] → AtRest base w.fd) :=
  h.recoverable _ (Store.survives_now _ _)

/-- With a journal that is not hot the database file is at rest. -/
theorem atRest (h : Durable base w) (hcold : ¬MagicAt w.jfd.now 0) : AtRest base w.fd := by
  obtain ⟨segs, hhot, -, hexact⟩ := h.now
  exact hexact (hhot.eq_nil hcold)

theorem of_atRest (hfd : AtRest base w.fd) (hcold : w.jfd.All fun v => ¬MagicAt v 0)
    (habsent : w.journalExists = false → w.jfd = .settled .blank) : Durable base w :=
  ⟨hfd.recoverable hcold, habsent, fun _ => hcold⟩

/-- Only the two files count. -/
theorem congr {w' : World} (h : Durable base w) (hfd : w'.fd = w.fd) (hjfd : w'.jfd = w.jfd)
    (hexists : w'.journalExists = w.journalExists) : Durable base w' := by
  constructor
  · rw [hfd, hjfd]
    exact h.recoverable
  · rw [hjfd, hexists]
    exact h.absent
  · rw [hjfd]
    exact h.cold

/-- When the journal is deleted the database file must be at rest. -/
theorem deleted (hfd : AtRest base w.fd) (hjfd : w.jfd = .settled .blank) : Durable base w := by
  have hblank : ¬MagicAt ParentFile.blank 0 := fun h => absurd (magicAt_byte h) (by decide)
  apply of_atRest hfd
  · rw [hjfd]
    exact Versions.all_settled hblank
  · exact fun _ => hjfd

end Durable

/-! ## Loss of power -/

/-- Power was lost in `w` and is back in `u`: the memory of the pager is gone,
each file is something that survives of it. A journal whose creation was not
synced may be gone too; one whose deletion was reported stays deleted. -/
structure PowerLoss (G : Geometry) (w u : World) : Prop where
  pager : u.pager = .opened
  fd : ∃ f, w.fd.Survives G.sectorSize f ∧ u.fd = .settled f
  jfd : ∃ g, w.jfd.Survives G.sectorSize g ∧ u.jfd = .settled g
  journalExists : u.journalExists = true → w.journalExists = true
  vanished : u.journalExists = false → u.jfd = .settled .blank

/-- No loss of power loses the image. -/
theorem PowerLoss.durable {u : World} (h : PowerLoss G w u) (hw : Durable base w) :
    ∃ long : DbImage G, long.Extends base ∧ Durable long u := by
  obtain ⟨f, hf, hfd⟩ := h.fd
  obtain ⟨g, hg, hjfd⟩ := h.jfd
  obtain ⟨segs, hhot, hall, hexact⟩ := hw.recoverable g hg
  have hundo := Undoable.survives hall hf
  have hcold : u.jfd.now.byte 0 = 0 → u.jfd.All fun v => ¬MagicAt v 0 := by
    rw [hjfd]
    intro hzero
    apply Versions.all_settled
    intro hmagic
    rw [Versions.now_settled, magicAt_byte hmagic] at hzero
    exact absurd hzero (by decide)
  cases segs with
  | nil =>
      -- nothing is undone, whatever is in the file stays
      have hatRest := hexact rfl
      have hwhole : WholePages G f.size := hf.size_of hatRest.whole hatRest.shrinks
      obtain ⟨long, hext, hin⟩ := (hundo.mono fun p hp => absurd hp List.not_mem_nil).rebase hwhole
      have hrest : AtRest long u.fd := by
        rw [hfd]
        exact .settled hin
      refine ⟨long, hext, ⟨?_, h.vanished, hcold⟩⟩
      rw [hjfd]
      exact hrest.recoverable (Versions.all_settled hhot.last)
  | cons seg segs =>
      refine ⟨base, .refl base, ⟨?_, h.vanished, hcold⟩⟩
      rw [hfd, hjfd]
      intro g' hg'
      obtain rfl := hg'.settled
      exact ⟨seg :: segs, hhot, Versions.all_settled hundo,
        fun hnil => absurd hnil (List.cons_ne_nil _ _)⟩

end SqliteFs
