import SqliteFs.Storage
import SqliteFs.Lib.Run

/-!
The journal that is kept in memory until it grows too large (memjournal.c): a
chain of chunks of one size, which only grows at its end, with a pointer to
where the last read stopped. When it would grow beyond `nSpill` it is written
to a real file, which then takes its place. A plain file that is appended to
is what its callers may think they have.
-/

namespace SqliteFs

open Lib

/-- `MemJournal`. The chain from `pFirst` on is the list of its chunks, and
`endpoint.pChunk` is the last of them; `readpoint.pChunk` is known by its place
in the chain. -/
structure MemJournal where
  nChunkSize : Int
  nSpill : Int
  nSize : Int
  pFirst : List Bytes
  endOffset : Int
  readOffset : Int
  readChunk : Option Nat
  deleteOnClose : Bool
  nChunkSize_pos : 0 < nChunkSize

namespace MemJournal

/-- The loop of `memjrnlRead` over the chunks in front of offset `iOfst`. -/
def seekLoop (nChunkSize iOfst : Int) : List Bytes → Nat → Int → Option Nat
  | [], _, _ => none
  | _ :: rest, k, iOff =>
    if iOff + nChunkSize ≤ iOfst then seekLoop nChunkSize iOfst rest (k + 1) (iOff + nChunkSize)
    else some k

/-- The copying loop of `memjrnlRead`; chunk `k` is the first of the list. A
null pointer is followed to no chunk. The result is the buffer and the chunk
where the loop stopped. -/
def copyLoop (nChunkSize : Int) :
    List Bytes → Nat → Int → Int → Int → Bytes → Option (Bytes × Option Nat)
  | [], _, _, _, _, _ => none
  | pChunk :: rest, k, iChunkOffset, nRead, zOut, zBuf =>
    let iSpace := nChunkSize - iChunkOffset
    let nCopy := min nRead iSpace
    let zBuf := overlay zBuf (fun i => pChunk (iChunkOffset + i)) zOut nCopy
    if 0 ≤ nRead - iSpace then
      match rest with
      | [] => some (zBuf, none)
      | next :: rest =>
        if 0 < nRead - iSpace then
          copyLoop nChunkSize (next :: rest) (k + 1) 0 (nRead - iSpace) (zOut + nCopy) zBuf
        else some (zBuf, some (k + 1))
    else some (zBuf, some k)

/-- The chunk a read starts with: where the last read stopped, if it goes on there. -/
def startChunk (p : MemJournal) (iOfst : Int) : Option Nat :=
  if p.readOffset ≠ iOfst ∨ iOfst = 0 then seekLoop p.nChunkSize iOfst p.pFirst 0 0
  else p.readChunk

/-- `none` is a null pointer that is followed. -/
def memjrnlRead (p : MemJournal) (zBuf : Bytes) (iAmt iOfst : Int) :
    Option (MemJournal × Bytes) := do
  let k ← p.startChunk iOfst
  let (zBuf, pChunk) ← copyLoop p.nChunkSize (p.pFirst.drop k) k (iOfst.tmod p.nChunkSize) iAmt 0
    zBuf
  pure ({ p with
    readOffset := if pChunk.isSome then iOfst + iAmt else 0
    readChunk := pChunk }, zBuf)

/-- `iSpace` bytes of `src` go to `iChunkOffset` of the last chunk, or to a new
one behind it. -/
def extend (iChunkOffset iSpace : Int) (src : Bytes) : List Bytes → List Bytes
  | [] => [overlay (fun _ => 0) src 0 iSpace]
  | [c] =>
    if iChunkOffset = 0 then [c, overlay (fun _ => 0) src 0 iSpace]
    else [overlay c src iChunkOffset iSpace]
  | c :: d :: rest => c :: extend iChunkOffset iSpace src (d :: rest)

/-- How much of a write goes to the present chunk. -/
def iSpace (p : MemJournal) (nWrite : Int) : Int :=
  min nWrite (p.nChunkSize - p.endOffset.tmod p.nChunkSize)

theorem iSpace_pos (p : MemJournal) {nWrite : Int} (h : 0 < nWrite) : 0 < p.iSpace nWrite := by
  have hmod := Int.tmod_lt_of_pos p.endOffset p.nChunkSize_pos
  unfold iSpace
  omega

/-- One round of the loop of `memjrnlWrite`. -/
def writeChunk (p : MemJournal) (src : Bytes) (nWrite : Int) : MemJournal :=
  { p with
    pFirst := extend (p.endOffset.tmod p.nChunkSize) (p.iSpace nWrite) src p.pFirst
    endOffset := p.endOffset + p.iSpace nWrite }

/-- The loop of `memjrnlWrite`. A chunk that is needed may not be there to allocate. -/
def writeLoop (p : MemJournal) (malloc : Nat → Bool) (zBuf : Bytes) (zWrite nWrite : Int) :
    Rc × MemJournal :=
  if 0 < nWrite then
    if p.endOffset.tmod p.nChunkSize = 0 ∧ malloc 0 = false then (.ioerrNomem, p)
    else
      writeLoop (p.writeChunk (fun i => zBuf (zWrite + i)) nWrite) (fun n => malloc (n + 1)) zBuf
        (zWrite + p.iSpace nWrite) (nWrite - p.iSpace nWrite)
  else (.ok, p)
termination_by nWrite.toNat
decreasing_by
  have := p.iSpace_pos (by assumption)
  omega

/-- Every chunk that begins inside the write is there to allocate. -/
def Allocated (nChunkSize iOfst iAmt : Int) (malloc : Nat → Bool) : Prop :=
  ∀ j : Int, iOfst ≤ j * nChunkSize → j * nChunkSize < iOfst + iAmt →
    malloc (j - iOfst / nChunkSize).toNat = true

/-- The loop of `memjrnlCreateFile`. -/
def createLoop (nChunk endOffset : Int) : List Bytes → Int → Outcomes → ParentFile →
    Rc × ParentFile
  | [], _, _, f => (.ok, f)
  | c :: rest, iOff, io, f =>
    let n := if iOff + nChunk > endOffset then endOffset - iOff else nChunk
    let put := f.xWrite (io 0) c n iOff
    if put.1 = .ok then createLoop n endOffset rest (iOff + n) (fun k => io (k + 1)) put.2
    else put

end MemJournal

/-- A journal: in memory, or the real file. `real` is what is on the disk under
its name. -/
structure JournalFile where
  memory : Option MemJournal
  real : ParentFile

/-- The calls to a journal. It is only ever truncated to nothing. -/
inductive MemCall where
  | write (zBuf : Bytes) (iAmt iOfst : Int) (malloc : Nat → Bool) (io : Outcomes)
  | read (zBuf : Bytes) (iAmt iOfst : Int) (io : Outcomes)
  | truncate (io : Outcomes)

namespace JournalFile

/-- `sqlite3JournalOpen`. Chunks are as large as the limit, or fill a kilobyte
with their pointer. -/
def sqlite3JournalOpen (nSpill : Int) (deleteOnClose : Bool) (real : ParentFile) : JournalFile where
  memory := if nSpill = 0 then none else some
    { nChunkSize := if 0 < nSpill then nSpill else 8 + 1024 - 16
      nSpill := nSpill
      nSize := 0
      pFirst := []
      endOffset := 0
      readOffset := 0
      readChunk := none
      deleteOnClose := deleteOnClose
      nChunkSize_pos := by split_ifs with h; exacts [h, by norm_num] }
  real := real

/-- Write the chunks to the real file. If that fails the journal stays in
memory, and the file is closed again. -/
def memjrnlCreateFile (p : MemJournal) (real : ParentFile) (io : Outcomes) : Rc × JournalFile :=
  if (io 0).rc = .ok then
    let out := MemJournal.createLoop p.nChunkSize p.endOffset p.pFirst 0 (fun k => io (k + 1)) real
    if out.1 = .ok then (.ok, ⟨none, out.2⟩)
    else (out.1, ⟨some p, if p.deleteOnClose then .blank else out.2⟩)
  else ((io 0).rc, ⟨some p, real⟩)

/-- A write to the real file. -/
def writeReal (real : ParentFile) (zBuf : Bytes) (iAmt iOfst : Int) (io : Outcomes) :
    Rc × JournalFile :=
  let put := real.xWrite (io 0) zBuf iAmt iOfst
  (put.1, ⟨none, put.2⟩)

def memjrnlWrite (p : MemJournal) (real : ParentFile) (zBuf : Bytes) (iAmt iOfst : Int)
    (malloc : Nat → Bool) (io : Outcomes) : Rc × JournalFile :=
  if 0 < p.nSpill ∧ p.nSpill < iAmt + iOfst then
    let out := memjrnlCreateFile p real io
    if out.1 = .ok then
      writeReal out.2.real zBuf iAmt iOfst fun k => io (k + 1 + p.pFirst.length)
    else out
  else
    let out := p.writeLoop malloc zBuf 0 iAmt
    if out.1 = .ok then (.ok, ⟨some { out.2 with nSize := iAmt + iOfst }, real⟩)
    else (out.1, ⟨some out.2, real⟩)

def memjrnlTruncate (p : MemJournal) : MemJournal :=
  { p with nSize := 0, pFirst := [], endOffset := 0, readOffset := 0, readChunk := none }

/-- The method of the journal as it is. `none` is a null pointer that is followed. -/
def step (s : JournalFile) : MemCall → Option (JournalFile × Rc × Bytes)
  | .write zBuf iAmt iOfst malloc io =>
    let out := match s.memory with
      | some p => memjrnlWrite p s.real zBuf iAmt iOfst malloc io
      | none => writeReal s.real zBuf iAmt iOfst io
    some (out.2, out.1, zBuf)
  | .read zBuf iAmt iOfst io =>
    match s.memory with
    | some p => (p.memjrnlRead zBuf iAmt iOfst).map fun out => (⟨some out.1, s.real⟩, .ok, out.2)
    | none =>
      let got := s.real.xRead (io 0) zBuf iAmt iOfst
      some (s, got.1, got.2)
  | .truncate io =>
    match s.memory with
    | some p => some (⟨some (memjrnlTruncate p), s.real⟩, .ok, fun _ => 0)
    | none => some (⟨none, if (io 0).rc = .ok then s.real.cut 0 else s.real⟩, (io 0).rc, fun _ => 0)

/-- What the call needs is there: in memory the chunks of a write, or the real
file with a write for each chunk and the write itself when it grows too large,
and nothing for the other calls; of a real file its own call. -/
def Granted (s : JournalFile) : MemCall → Prop
  | .write _ iAmt iOfst malloc io =>
    match s.memory with
    | some p =>
      if 0 < p.nSpill ∧ p.nSpill < iAmt + iOfst then ∀ k, k ≤ p.pFirst.length + 1 → (io k).rc = .ok
      else MemJournal.Allocated p.nChunkSize iOfst iAmt malloc
    | none => (io 0).rc = .ok
  | .read _ _ _ io | .truncate io => s.memory.isSome = true ∨ (io 0).rc = .ok

end JournalFile

/-! ## The plain file -/

namespace MemCall

/-- Every allocation succeeds and the real file carries every call out. -/
def Carried : MemCall → Prop
  | .write _ _ _ malloc io => (∀ k, malloc k = true) ∧ io.Ideal
  | .read _ _ _ io | .truncate io => io.Ideal

/-- The journal is only appended to, and what is read is there. -/
def Allowed (g : ParentFile) : MemCall → Prop
  | .write _ iAmt iOfst _ _ => iOfst = g.size ∧ 0 < iAmt
  | .read _ iAmt iOfst _ => 0 ≤ iOfst ∧ 0 < iAmt ∧ iOfst + iAmt ≤ g.size
  | .truncate _ => True

/-- What the call makes of a plain file. Of a write that fails a first part may
have been stored. -/
def Plain (g : ParentFile) (rc : Rc) (g' : ParentFile) : MemCall → Prop
  | .write zBuf iAmt iOfst _ _ =>
    ∃ n, 0 ≤ n ∧ n ≤ iAmt ∧ (rc = .ok → n = iAmt) ∧ g' = g.put zBuf iOfst n
  | .read _ _ _ _ => g' = g
  | .truncate _ => g' = if rc = .ok then .blank else g

/-- The answer is that of the plain file. -/
def Answered (g : ParentFile) (rc : Rc) (buf : Bytes) : MemCall → Prop
  | .read _ iAmt iOfst _ => rc = .ok → ∀ k, 0 ≤ k → k < iAmt → buf k = g.byte (iOfst + k)
  | _ => True

end MemCall

/-! ## Chunks -/

/-- From offset `base` on the chunks hold the file, and they end with it. -/
def Stored (n : Int) (g : ParentFile) : Int → List Bytes → Prop
  | base, [] => g.size ≤ base
  | base, c :: rest => base < g.size ∧
      (∀ i, 0 ≤ i → i < n → base + i < g.size → c i = g.byte (base + i)) ∧
      Stored n g (base + n) rest

section Chunks

variable {n base : Int} {g : ParentFile} {cs : List Bytes}

theorem Stored.drop (h : Stored n g base cs) {k : Nat} (hk : k < cs.length) :
    Stored n g (base + k * n) (cs.drop k) := by
  induction cs generalizing base k with
  | nil => exact absurd hk (Nat.not_lt_zero k)
  | cons c rest ih =>
      cases k with
      | zero =>
          rw [Nat.cast_zero, zero_mul, add_zero]
          exact h
      | succ k =>
          have hrest := ih h.2.2 (Nat.lt_of_succ_lt_succ hk)
          have hbase : base + n + k * n = base + (k + 1 : Nat) * n := by
            push_cast
            ring
          rw [hbase] at hrest
          exact hrest

/-- The chunk that is found is the one with the offset in it. -/
theorem seekLoop_found {k : Nat} {iOfst : Int} (h : Stored n g base cs)
    (hlo : base ≤ iOfst) (hhi : iOfst < g.size) :
    ∃ j : Nat, MemJournal.seekLoop n iOfst cs k base = some (k + j) ∧ j < cs.length ∧
      base + j * n ≤ iOfst ∧ iOfst < base + j * n + n := by
  induction cs generalizing base k with
  | nil =>
      have hend : g.size ≤ base := h
      omega
  | cons c rest ih =>
      rw [MemJournal.seekLoop]
      split_ifs with hle
      · obtain ⟨j, hj, hlt, hfrom, hto⟩ := ih (k := k + 1) h.2.2 hle
        have hbase : base + n + j * n = base + (j + 1 : Nat) * n := by
          push_cast
          ring
        rw [hbase] at hfrom hto
        exact ⟨j + 1, by rw [hj]; congr 1; omega, Nat.succ_lt_succ hlt, hfrom, hto⟩
      · refine ⟨0, rfl, Nat.succ_pos _, ?_, ?_⟩
        · rw [Nat.cast_zero, zero_mul, add_zero]
          exact hlo
        · rw [Nat.cast_zero, zero_mul, add_zero]
          omega

/-- The bytes come out in order, and the place where the loop stops is where
the next byte is, if there is a chunk for it. -/
theorem copyLoop_copies (hn : 0 < n) {k : Nat} {off nRead : Int} (zOut : Int) (zBuf : Bytes)
    (h : Stored n g base cs) (hoff : 0 ≤ off) (hoffn : off < n) (hread : 0 < nRead)
    (hend : base + off + nRead ≤ g.size) :
    ∃ buf pChunk, MemJournal.copyLoop n cs k off nRead zOut zBuf = some (buf, pChunk) ∧
      (∀ i, i < zOut → buf i = zBuf i) ∧
      (∀ i, zOut ≤ i → i < zOut + nRead → buf i = g.byte (base + off + (i - zOut))) ∧
      ∀ k', pChunk = some k' → ∃ j : Nat, k' = k + j ∧ j < cs.length ∧
        base + j * n ≤ base + off + nRead ∧ base + off + nRead < base + j * n + n := by
  induction cs generalizing base k off nRead zOut zBuf with
  | nil =>
      have hsize : g.size ≤ base := h
      omega
  | cons c rest ih =>
      obtain ⟨hbase, hbytes, hrest⟩ := h
      -- what the copy of one chunk does to the buffer
      have hinside : ∀ i, zOut ≤ i → i < zOut + min nRead (n - off) →
          overlay zBuf (fun i => c (off + i)) zOut (min nRead (n - off)) i =
            g.byte (base + off + (i - zOut)) := by
        intro i hlo hhi
        rw [overlay_inside hlo hhi, hbytes (off + (i - zOut)) (by omega) (by omega) (by omega)]
        congr 1
        ring
      have hbefore : ∀ i, i < zOut →
          overlay zBuf (fun i => c (off + i)) zOut (min nRead (n - off)) i = zBuf i :=
        fun i hi => overlay_outside (Or.inl hi)
      rw [MemJournal.copyLoop.eq_def]
      simp only
      rcases le_or_gt 0 (nRead - (n - off)) with hmore | hless
      · have hmin : min nRead (n - off) = n - off := min_eq_right (by omega)
        rw [if_pos hmore]
        cases rest with
        | nil =>
            have hsize : g.size ≤ base + n := hrest
            refine ⟨_, _, rfl, hbefore, ?_, nofun⟩
            intro i hlo hhi
            exact hinside i hlo (by omega)
        | cons d rest =>
            simp only
            rcases lt_or_ge 0 (nRead - (n - off)) with hleft | hdone
            · obtain ⟨buf, pChunk, hcopy, hold, hnew, hstop⟩ :=
                @ih (base + n) (k + 1) 0 (nRead - (n - off)) (zOut + min nRead (n - off))
                  (overlay zBuf (fun i => c (off + i)) zOut (min nRead (n - off)))
                  hrest le_rfl hn hleft (by omega)
              refine ⟨buf, pChunk, (if_pos hleft).trans hcopy, ?_, ?_, ?_⟩
              · intro i hi
                rw [hold i (by omega), hbefore i hi]
              · intro i hlo hhi
                rcases lt_or_ge i (zOut + min nRead (n - off)) with hin | hout
                · rw [hold i hin, hinside i hlo hin]
                · rw [hnew i hout (by omega)]
                  congr 1
                  omega
              · intro k' hk'
                obtain ⟨j, rfl, hlt, hfrom, hto⟩ := hstop k' hk'
                have hnext : base + n + j * n = base + (j + 1 : Nat) * n := by
                  push_cast
                  ring
                rw [hnext] at hfrom hto
                exact ⟨j + 1, by omega, Nat.succ_lt_succ hlt, by omega, by omega⟩
            · refine ⟨_, _, if_neg (not_lt.mpr hdone), hbefore,
                fun i hlo hhi => hinside i hlo (by omega), ?_⟩
              rintro k' ⟨⟩
              refine ⟨1, rfl, by simp, ?_, ?_⟩
              · rw [Nat.cast_one, one_mul]
                omega
              · rw [Nat.cast_one, one_mul]
                omega
      · have hmin : min nRead (n - off) = nRead := min_eq_left (by omega)
        refine ⟨_, _, if_neg (not_le.mpr hless), hbefore,
          fun i hlo hhi => hinside i hlo (by omega), ?_⟩
        rintro k' ⟨⟩
        refine ⟨0, rfl, Nat.succ_pos _, ?_, ?_⟩
        · rw [Nat.cast_zero, zero_mul]
          omega
        · rw [Nat.cast_zero, zero_mul]
          omega

end Chunks

end SqliteFs
