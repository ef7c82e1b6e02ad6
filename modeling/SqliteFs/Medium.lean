import SqliteFs.Lib.ByteFile

/-!
The parent file that stands for the medium, and the C types the code computes
with. A parent call is carried out or fails, as its `Outcome` says. A call
that is carried out does what the default VFS documents: reads past the end
are filled with zeros and answered `SQLITE_IOERR_SHORT_READ`, writes past the
end make the file longer and leave zeros in the gap.
-/

namespace SqliteFs

open Lib

/-- Memory, a buffer or the content of a file: what is at each address. A
pointer into a buffer `b` at `k` is `fun i => b (k + i)`. -/
abbrev Bytes := Int → UInt8

/-- The value an `int` holds after `x` is converted to it: 32 bits, two's
complement. Signed overflow, which C leaves undefined, wraps as well. -/
def int32 (x : Int) : Int := (x + 2147483648) % 4294967296 - 2147483648

theorem int32_of_bounds {x : Int} (hlo : -2147483648 ≤ x) (hhi : x < 2147483648) :
    int32 x = x := by
  unfold int32
  omega

theorem int32_range (x : Int) : -2147483648 ≤ int32 x ∧ int32 x < 2147483648 := by
  unfold int32
  omega

/-- The result codes that the VFS returns itself or passes on from its parent. -/
inductive Rc where
  | ok
  | error
  | nomem
  | ioerr
  | ioerrNomem
  | ioerrRead
  | ioerrShortRead
  | ioerrWrite
  | ioerrFsync
  | full
  | cantopen
  deriving DecidableEq, Repr

/-- A parent call that went wrong: the code it returned, and what it left in
the range it was asked to transfer. -/
structure Failure where
  rc : Rc
  torn : Bytes
  rc_ne_ok : rc ≠ .ok

inductive Outcome where
  | done
  | fails (failure : Failure)

def Outcome.rc : Outcome → Rc
  | .done => .ok
  | .fails failure => failure.rc

/-- The outcomes of the parent calls made by one call of the VFS, in order. -/
abbrev Outcomes := Nat → Outcome

/-- Every parent call is carried out. -/
def Outcomes.Ideal (io : Outcomes) : Prop := ∀ n, io n = .done

theorem Outcomes.Ideal.tail {io : Outcomes} (h : io.Ideal) :
    Outcomes.Ideal (fun n => io (n + 1)) :=
  fun n => h (n + 1)

def carriedOut : Outcomes := fun _ => .done

theorem carriedOut_ideal : carriedOut.Ideal := fun _ => rfl

/-- A file of the parent VFS. Reading past the end gives zeros. -/
structure ParentFile where
  size : Int
  byte : Bytes
  size_nonneg : 0 ≤ size
  zero_past : ∀ i, size ≤ i → byte i = 0

namespace ParentFile

/-- A file that does not exist or was just created. -/
def blank : ParentFile where
  size := 0
  byte := fun _ => 0
  size_nonneg := le_refl 0
  zero_past := fun _ _ => rfl

/-- `len` bytes of `src` stored at `off`. -/
def put (f : ParentFile) (src : Bytes) (off len : Int) : ParentFile where
  size := max f.size (off + len)
  byte := overlay f.byte src off len
  size_nonneg := le_max_of_le_left f.size_nonneg
  zero_past := by
    intro i hi
    have hsize : f.size ≤ i := le_trans (le_max_left _ _) hi
    have hend : off + len ≤ i := le_trans (le_max_right _ _) hi
    rw [overlay_outside (Or.inr hend)]
    exact f.zero_past i hsize

theorem put_inside {f : ParentFile} {src : Bytes} {off len i : Int} (hlo : off ≤ i)
    (hhi : i < off + len) : (f.put src off len).byte i = src (i - off) :=
  overlay_inside hlo hhi

theorem put_outside {f : ParentFile} {src : Bytes} {off len i : Int}
    (h : i < off ∨ off + len ≤ i) : (f.put src off len).byte i = f.byte i :=
  overlay_outside h

/-- `len` bytes of `src` put over what the file holds at `off`, its size kept.
With any bytes for `src` this is what a failed write leaves. -/
def overwrite (f : ParentFile) (src : Bytes) (off len : Int) : ParentFile where
  size := f.size
  byte := fun i => if i < f.size then overlay f.byte src off len i else f.byte i
  size_nonneg := f.size_nonneg
  zero_past := by
    intro i hi
    rw [if_neg (by omega)]
    exact f.zero_past i hi

theorem overwrite_outside {f : ParentFile} {src : Bytes} {off len i : Int}
    (h : i < off ∨ off + len ≤ i) : (f.overwrite src off len).byte i = f.byte i := by
  simp only [overwrite, overlay_outside h, ite_self]

def xFileSize (f : ParentFile) (io : Outcome) : Rc × Int := (io.rc, f.size)

def xRead (f : ParentFile) (io : Outcome) (zBuf : Bytes) (iAmt iOfst : Int) : Rc × Bytes :=
  match io with
  | .fails failure => (failure.rc, overlay zBuf failure.torn 0 iAmt)
  | .done =>
    if iOfst < 0 then (.ioerrRead, zBuf)
    else (if iOfst + iAmt ≤ f.size then .ok else .ioerrShortRead,
      overlay zBuf (fun k => f.byte (iOfst + k)) 0 iAmt)

def xWrite (f : ParentFile) (io : Outcome) (zBuf : Bytes) (iAmt iOfst : Int) :
    Rc × ParentFile :=
  match io with
  | .fails failure => (failure.rc, f.overwrite failure.torn iOfst iAmt)
  | .done => if iOfst < 0 then (.ioerrWrite, f) else (.ok, f.put zBuf iOfst iAmt)

variable {f : ParentFile} {io : Outcome} {zBuf : Bytes} {iAmt iOfst : Int}

theorem xRead_inside (hofst : 0 ≤ iOfst) (hend : iOfst + iAmt ≤ f.size) :
    f.xRead .done zBuf iAmt iOfst =
      (.ok, overlay zBuf (fun k => f.byte (iOfst + k)) 0 iAmt) := by
  unfold xRead
  simp only [if_neg (not_lt.mpr hofst), if_pos hend]

theorem xWrite_done (hofst : 0 ≤ iOfst) :
    f.xWrite .done zBuf iAmt iOfst = (.ok, f.put zBuf iOfst iAmt) := by
  unfold xWrite
  simp only [if_neg (not_lt.mpr hofst)]

/-- A write that reports success stored exactly its bytes. -/
theorem xWrite_ok (h : (f.xWrite io zBuf iAmt iOfst).1 = .ok) :
    0 ≤ iOfst ∧ (f.xWrite io zBuf iAmt iOfst).2 = f.put zBuf iOfst iAmt := by
  cases io with
  | done =>
      by_cases hneg : iOfst < 0
      · simp [xWrite, hneg] at h
      · exact ⟨not_lt.mp hneg, by simp [xWrite, hneg]⟩
  | fails failure => exact absurd h failure.rc_ne_ok

/-- Whatever its outcome, a write changes at most the bytes of its range. -/
theorem xWrite_frame {i : Int} (hout : i < iOfst ∨ iOfst + iAmt ≤ i) :
    (f.xWrite io zBuf iAmt iOfst).2.byte i = f.byte i := by
  cases io with
  | done =>
      by_cases hneg : iOfst < 0
      · simp [xWrite, hneg]
      · simp [xWrite, hneg, put_outside hout]
  | fails failure => exact overwrite_outside hout

/-- A write inside the file keeps its size, whatever its outcome. -/
theorem xWrite_size (hend : iOfst + iAmt ≤ f.size) :
    (f.xWrite io zBuf iAmt iOfst).2.size = f.size := by
  cases io with
  | done =>
      by_cases hneg : iOfst < 0
      · simp [xWrite, hneg]
      · simp [xWrite, hneg, put, hend]
  | fails failure => rfl

end ParentFile

end SqliteFs
