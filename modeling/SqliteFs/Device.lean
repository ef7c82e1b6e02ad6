import SqliteFs.Medium

/-!
The raw drive of the registered VFS table: `win32io.c` over the Win32 calls,
and the wrappers of test_onefile.c that `fs_open` uses. A handle has a file
pointer, and the driver remembers the offset of the last transfer.
-/

namespace SqliteFs

open Lib

/-- The value of a `DWORD` that `x` is converted to. -/
def uint32 (x : Int) : Int := x % 4294967296

theorem uint32_of_bounds {x : Int} (hlo : 0 ≤ x) (hhi : x < 4294967296) : uint32 x = x :=
  Int.emod_eq_of_lt hlo hhi

/-- The drive, the file pointer of every handle on it, and `last_offset`. -/
structure Drive where
  file : ParentFile
  filePointer : Int → Int
  lastOffset : Int

/-- How a `ReadFile` or `WriteFile` ends: what it returns, and the number of
bytes after which it stops if more were asked for. -/
structure Transfer where
  ok : Bool
  limit : Int

/-- `lpNumberOfBytesRead` and `lpNumberOfBytesWritten`. -/
def Transfer.bytes (io : Transfer) (nBytes : Int) : Int := max 0 (min io.limit nBytes)

/-- The device transfers whatever it is asked for. -/
def Transfer.Ideal (io : Transfer) : Prop := io.ok = true ∧ 4294967296 ≤ io.limit

theorem Transfer.Ideal.bytes_uint32 {io : Transfer} (hio : io.Ideal) (x : Int) :
    io.bytes (uint32 x) = uint32 x := by
  have hlimit := hio.2
  simp only [bytes, uint32]
  omega

def STORAGE_SUCCESS : Rc := .ok

/-- The number of this code is that of `SQLITE_IOERR`. -/
def STORAGE_COMMUNICATION_ERROR : Rc := .ioerr

namespace Drive

/-- `SetFilePointer(h, offset, NULL, FILE_BEGIN)`, which takes a `LONG` and
refuses to go before the start. -/
def setFilePointer (d : Drive) (hnd offset : Int) : Drive :=
  if 0 ≤ int32 offset then
    { d with filePointer := Function.update d.filePointer hnd (int32 offset) }
  else d

def readFile (d : Drive) (hnd : Int) (io : Transfer) (buf : Bytes) (nBytes : Int) :
    Bytes × Drive :=
  let at_ := d.filePointer hnd
  let moved := at_ + io.bytes nBytes
  (overlay buf (fun k => d.file.byte (at_ + k)) 0 (io.bytes nBytes),
    { d with filePointer := Function.update d.filePointer hnd moved })

def writeFile (d : Drive) (hnd : Int) (io : Transfer) (buf : Bytes) (nBytes : Int) : Drive :=
  let at_ := d.filePointer hnd
  { d with
    file := d.file.overwrite buf at_ (io.bytes nBytes)
    filePointer := Function.update d.filePointer hnd (at_ + io.bytes nBytes) }

def xreadWin32 (d : Drive) (fd : Int) (io : Transfer) (buf : Bytes) (size offset : Int) :
    Rc × Bytes × Drive :=
  let d := { d.setFilePointer fd offset with lastOffset := uint32 offset }
  let got := d.readFile fd io buf (uint32 size)
  (if io.ok = false then STORAGE_COMMUNICATION_ERROR
    else if io.bytes (uint32 size) < uint32 size then STORAGE_COMMUNICATION_ERROR
    else STORAGE_SUCCESS, got)

/-- `WriteFile` is asked for `offset` bytes. -/
def xwriteWin32 (d : Drive) (fd : Int) (io : Transfer) (buf : Bytes) (size offset : Int) :
    Rc × Drive :=
  let d := if offset ≠ uint32 (d.lastOffset + size) then d.setFilePointer fd offset else d
  let d := { d with lastOffset := uint32 offset }
  (if io.bytes (uint32 offset) < uint32 size then STORAGE_COMMUNICATION_ERROR
    else STORAGE_SUCCESS, d.writeFile fd io buf (uint32 offset))

def xread (d : Drive) (fd : Int) (io : Transfer) (buf : Bytes) (size offset : Int) :
    Rc × Bytes × Drive :=
  d.xreadWin32 fd io buf size offset

def xwrite (d : Drive) (fd : Int) (io : Transfer) (buf : Bytes) (size offset : Int) :
    Rc × Drive :=
  d.xwriteWin32 fd io buf size offset

variable {d : Drive} {fd : Int} {io : Transfer} {buf : Bytes} {size offset : Int}

/-- A read changes nothing on the drive. -/
theorem xread_drive (d : Drive) (fd : Int) (io : Transfer) (buf : Bytes) (size : Int)
    (hlo : 0 ≤ offset) (hhi : offset < 2147483648) :
    (d.xread fd io buf size offset).2.2.file = d.file ∧
      (d.xread fd io buf size offset).2.2.lastOffset = offset := by
  have hint : int32 offset = offset := int32_of_bounds (by omega) hhi
  simp only [xread, xreadWin32, readFile, setFilePointer, hint, hlo, if_true, true_and]
  exact uint32_of_bounds hlo (by omega)

/-- A read that reports success got its bytes from the offset it was given. -/
theorem xread_ok (hlo : 0 ≤ offset) (hhi : offset < 2147483648) (hsize : 0 ≤ size)
    (hsizeLt : size < 2147483648) (hok : (d.xread fd io buf size offset).1 = .ok) {k : Int}
    (hk : 0 ≤ k) (hkLt : k < size) :
    (d.xread fd io buf size offset).2.1 k = d.file.byte (offset + k) := by
  have hint : int32 offset = offset := int32_of_bounds (by omega) hhi
  have huint : uint32 size = size := uint32_of_bounds hsize (by omega)
  have henough : size ≤ io.bytes size := by
    by_contra hless
    simp only [xread, xreadWin32, huint, not_le.mp hless, if_true, ite_self] at hok
    cases hok
  simp only [xread, xreadWin32, readFile, setFilePointer, hint, hlo, if_true, huint,
    Function.update_self]
  rw [overlay_inside hk (by omega), sub_zero]

/-- A write that reports success and had its pointer set has stored at least
its first byte, and nothing before it. -/
theorem xwrite_ok (hlo : 0 ≤ offset) (hhi : offset < 2147483648) (hsize : 0 < size)
    (hsizeLt : size < 2147483648) (hseek : offset ≠ uint32 (d.lastOffset + size))
    (hok : (d.xwrite fd io buf size offset).1 = .ok) :
    (d.xwrite fd io buf size offset).2.file =
      d.file.overwrite buf offset (io.bytes offset) ∧ size ≤ io.bytes offset := by
  have hint : int32 offset = offset := int32_of_bounds (by omega) hhi
  have huint : uint32 size = size := uint32_of_bounds hsize.le (by omega)
  have huint' : uint32 offset = offset := uint32_of_bounds hlo (by omega)
  constructor
  · simp only [xwrite, xwriteWin32, writeFile, setFilePointer, hint, hlo, if_true, huint',
      if_pos hseek, Function.update_self]
  · by_contra hless
    simp only [xwrite, xwriteWin32, huint, huint', not_le.mp hless, if_true] at hok
    cases hok

theorem xread_ideal (hio : io.Ideal) : (d.xread fd io buf size offset).1 = .ok := by
  simp only [xread, xreadWin32, hio.1, hio.bytes_uint32, lt_irrefl, if_false, reduceCtorEq,
    STORAGE_SUCCESS]

theorem xwrite_ideal (hio : io.Ideal) (hle : uint32 size ≤ uint32 offset) :
    (d.xwrite fd io buf size offset).1 = .ok := by
  simp only [xwrite, xwriteWin32, hio.bytes_uint32, not_lt.mpr hle, if_false, STORAGE_SUCCESS]

end Drive

end SqliteFs
