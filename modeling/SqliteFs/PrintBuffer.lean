import SqliteFs.Device
import SqliteFs.Lib.Run

/-!
The print buffer of av_log.c. Text is appended to memory that is first the
buffer inside the struct and later a block from `realloc`, which doubles up to
`size_max`; `len` counts on when there is no more room. A call has no result
here if it stores bytes outside that memory, if the computation of a new size
wraps, or if one of its loops goes on after the size cannot grow any more.
-/

namespace SqliteFs

open Lib

def UINT_MAX : Int := 4294967295

/-- An unsigned number that must not wrap. -/
def unsigned (x : Int) : Option Int := if 0 ≤ x ∧ x ≤ UINT_MAX then some x else none

/-- The memory that `str` points to, how many bytes it has, whether it is not
`reserved_internal_buffer`, and the other fields of the struct. -/
structure AVBPrint where
  str : Bytes
  capacity : Int
  allocated : Bool
  len : Int
  size : Int
  sizeMax : Int

/-- What the `realloc` calls that are made return, in order: nothing, or memory
that is arbitrary where nothing is copied to. -/
abbrev Reallocs := Nat → Option Bytes

/-- A pointer to the bytes of `l`. -/
def bytesOf (l : List UInt8) : Bytes := fun i => l.getD i.toNat 0

namespace AVBPrint

/-- `reserved_internal_buffer` and the padding behind it. -/
def sizeAuto : Int := 4

/-- Put `n` bytes of `src` at `off`. -/
def store (b : AVBPrint) (src : Bytes) (off n : Int) : Option AVBPrint :=
  if 0 ≤ off ∧ off + n ≤ b.capacity then some { b with str := overlay b.str src off n } else none

/-- `av_bprint_room` -/
def room (b : AVBPrint) : Int := uint32 (b.size - min b.len b.size)

def isComplete (b : AVBPrint) : Prop := b.len < b.size

instance (b : AVBPrint) : Decidable b.isComplete := inferInstanceAs (Decidable (_ < _))

def minSize (b : AVBPrint) (room : Int) : Option Int :=
  (unsigned (UINT_MAX - b.len - 1)).bind fun left => unsigned (b.len + 1 + min left room)

def newSize (b : AVBPrint) (room : Int) : Option Int :=
  (b.minSize room).bind fun minSize =>
    let doubled := if b.sizeMax / 2 < b.size then some b.sizeMax else unsigned (b.size * 2)
    doubled.map fun newSize => if newSize < minSize then min b.sizeMax minSize else newSize

/-- `realloc` keeps the old bytes of an allocated block; those of the internal
buffer are copied up to the terminating NUL. -/
def alloc (b : AVBPrint) (realloc : Option Bytes) (room : Int) : Option (Int × AVBPrint) :=
  if b.size = b.sizeMax then some (-1, b)
  else if ¬b.isComplete then some (-1, b)
  else
    (b.newSize room).bind fun newSize =>
      match realloc with
      | none => some (-1, b)
      | some fresh =>
        let kept := if b.allocated then min b.capacity newSize else uint32 (b.len + 1)
        if kept ≤ b.capacity ∧ kept ≤ newSize then
          some (0, { b with
            str := overlay fresh b.str 0 kept
            capacity := newSize
            allocated := true
            size := newSize })
        else none

def grow (b : AVBPrint) (extraLen : Int) : Option AVBPrint :=
  let extraLen := min extraLen (uint32 (UINT_MAX - 5 - b.len))
  let b := { b with len := uint32 (b.len + extraLen) }
  if b.size ≠ 0 then b.store (fun _ => 0) (min b.len (uint32 (b.size - 1))) 1 else some b

/-- `reserved` is what the internal buffer holds before. -/
def init (reserved : Bytes) (realloc : Option Bytes) (sizeInit sizeMax : Int) :
    Option AVBPrint :=
  let sizeMax := if sizeMax = 1 then sizeAuto else sizeMax
  let b : AVBPrint := ⟨overlay reserved (fun _ => 0) 0 1, sizeAuto, false, 0,
    min sizeAuto sizeMax, sizeMax⟩
  if b.size < sizeInit then (b.alloc realloc (uint32 (sizeInit - 1))).map Prod.snd else some b

/-- More rounds than the size can grow. -/
def rounds (b : AVBPrint) : Nat := (b.sizeMax - b.size).toNat + 1

/-- The loop of `av_bprint_chars` and `av_bprint_append_data`, with the last
value of `room`. -/
def makeRoom (n : Int) : Nat → Reallocs → AVBPrint → Option (Int × AVBPrint)
  | 0, _, _ => none
  | fuel + 1, reallocs, b =>
    let room := b.room
    if n < room then some (room, b)
    else
      (b.alloc (reallocs 0) n).bind fun out =>
        if out.1 ≠ 0 then some (room, out.2)
        else makeRoom n fuel (fun k => reallocs (k + 1)) out.2

/-- What `av_bprint_chars` and `av_bprint_append_data` have in common. -/
def append (b : AVBPrint) (reallocs : Reallocs) (src : Bytes) (n : Int) : Option AVBPrint :=
  (makeRoom n b.rounds reallocs b).bind fun (room, b) =>
    (if room ≠ 0 then b.store src b.len (min n (uint32 (room - 1))) else some b).bind fun b =>
      b.grow n

def chars (b : AVBPrint) (reallocs : Reallocs) (c : UInt8) (n : Int) : Option AVBPrint :=
  b.append reallocs (fun _ => c) n

def appendData (b : AVBPrint) (reallocs : Reallocs) (data : List UInt8) : Option AVBPrint :=
  b.append reallocs (bytesOf data) data.length

/-- `vsnprintf` at the end of the buffer, for a format that gives `text`: what
fits is stored and terminated, if anything does. -/
def vsnprintf (b : AVBPrint) (room : Int) (text : List UInt8) : Option AVBPrint :=
  if room = 0 then some b
  else
    let n := min (text.length : Int) (room - 1)
    (b.store (bytesOf text) b.len n).bind fun b => b.store (fun _ => 0) (b.len + n) 1

def vbprintfLoop (text : List UInt8) : Nat → Reallocs → AVBPrint → Option AVBPrint
  | 0, _, _ => none
  | fuel + 1, reallocs, b =>
    let room := b.room
    let extraLen : Int := text.length
    (b.vsnprintf room text).bind fun b =>
      if extraLen ≤ 0 then some b
      else if extraLen < room then b.grow extraLen
      else
        (b.alloc (reallocs 0) extraLen).bind fun out =>
          if out.1 ≠ 0 then out.2.grow extraLen
          else vbprintfLoop text fuel (fun k => reallocs (k + 1)) out.2

def vbprintf (b : AVBPrint) (reallocs : Reallocs) (text : List UInt8) : Option AVBPrint :=
  vbprintfLoop text b.rounds reallocs b

def clear (b : AVBPrint) : Option AVBPrint :=
  if b.len ≠ 0 then (b.store (fun _ => 0) 0 1).map fun b => { b with len := 0 } else some b

/-! ## What the buffer holds -/

/-- Everything but the terminating NUL: the sizes, the length of what was
appended, and as much of it as there is room for. -/
structure Keeps (b : AVBPrint) (text : List UInt8) : Prop where
  sizeMax_le : b.sizeMax ≤ UINT_MAX
  size_nonneg : 0 ≤ b.size
  size_le : b.size ≤ b.sizeMax
  size_capacity : b.size ≤ b.capacity
  capacity_pos : 0 < b.capacity
  len_eq : b.len = min (text.length : Int) (UINT_MAX - 5)
  kept : ∀ i : Nat, (i : Int) < min b.len (b.size - 1) → text[i]? = some (b.str i)

/-- A terminated prefix of the text. -/
structure Holds (b : AVBPrint) (text : List UInt8) : Prop extends Keeps b text where
  terminated : 0 < b.size → b.str (min b.len (b.size - 1)) = 0

section

variable {b b' : AVBPrint} {text bytes : List UInt8}

theorem Keeps.len_nonneg (h : b.Keeps text) : 0 ≤ b.len := by
  have hlen := h.len_eq
  unfold UINT_MAX at hlen
  omega

theorem Keeps.len_le (h : b.Keeps text) : b.len ≤ 4294967290 := by
  have hlen := h.len_eq
  unfold UINT_MAX at hlen
  omega

theorem Keeps.room_eq (h : b.Keeps text) : b.room = b.size - min b.len b.size := by
  have hlen := h.len_nonneg
  have hsize := h.size_nonneg
  have hle := h.size_le
  have hmax := h.sizeMax_le
  unfold UINT_MAX at hmax
  exact uint32_of_bounds (by omega) (by omega)

theorem store_eq {src : Bytes} {off n : Int} (hoff : 0 ≤ off) (hend : off + n ≤ b.capacity) :
    b.store src off n = some { b with str := overlay b.str src off n } :=
  if_pos ⟨hoff, hend⟩

theorem unsigned_eq {x : Int} (hlo : 0 ≤ x) (hhi : x ≤ UINT_MAX) : unsigned x = some x :=
  if_pos ⟨hlo, hhi⟩

/-- A new size is computed without wrapping. It is larger than the old one and
suffices for the room asked for, unless it is the largest one. -/
theorem Keeps.newSize_eq (h : b.Keeps text) (hsize : b.size ≠ b.sizeMax) (hcomplete : b.isComplete)
    {room : Int} (hroom : 0 ≤ room) (hroomLe : room ≤ UINT_MAX) :
    ∃ size, b.newSize room = some size ∧ b.size < size ∧ size ≤ b.sizeMax ∧
      (b.len + room < size ∨ size = b.sizeMax) := by
  have hlen := h.len_nonneg
  have hlenLe := h.len_le
  have hle := h.size_le
  have hmax := h.sizeMax_le
  unfold isComplete at hcomplete
  have hleft : unsigned (UINT_MAX - b.len - 1) = some (UINT_MAX - b.len - 1) :=
    unsigned_eq (by unfold UINT_MAX at *; omega) (by omega)
  have hmin : b.minSize room = some (b.len + 1 + min (UINT_MAX - b.len - 1) room) := by
    rw [minSize, hleft, Option.bind_some]
    exact unsigned_eq (by omega) (by omega)
  have hdoubled : (if b.sizeMax / 2 < b.size then some b.sizeMax else unsigned (b.size * 2)) =
      some (if b.sizeMax / 2 < b.size then b.sizeMax else b.size * 2) := by
    split_ifs
    · rfl
    · exact unsigned_eq (by omega) (by omega)
  simp only [newSize, hmin, Option.bind_some, hdoubled, Option.map_some, Option.some.injEq,
    exists_eq_left']
  unfold UINT_MAX at *
  split_ifs
  all_goals omega

/-- An allocation leaves the text alone; if it succeeds there is more room. -/
theorem Keeps.alloc (h : b.Keeps text) (realloc : Option Bytes) (room : Int) (hroom : 0 ≤ room)
    (hroomLe : room ≤ UINT_MAX) :
    (∃ rc, rc ≠ 0 ∧ b.alloc realloc room = some (rc, b)) ∨
      ∃ b', b.alloc realloc room = some (0, b') ∧ b'.Keeps text ∧ b.isComplete ∧
        b'.len = b.len ∧ b'.sizeMax = b.sizeMax ∧ b.size < b'.size ∧
        (b.len + room < b'.size ∨ b'.size = b.sizeMax) ∧
        ∀ i, 0 ≤ i → i ≤ b.len → b'.str i = b.str i := by
  by_cases hsize : b.size = b.sizeMax
  · exact Or.inl ⟨-1, by decide, if_pos hsize⟩
  by_cases hcomplete : b.isComplete
  · obtain ⟨size, hnew, hmore, hmost, henough⟩ := h.newSize_eq hsize hcomplete hroom hroomLe
    cases realloc with
    | none =>
        refine Or.inl ⟨-1, by decide, ?_⟩
        rw [AVBPrint.alloc, if_neg hsize, if_neg (not_not.mpr hcomplete), hnew, Option.bind_some]
    | some fresh =>
        have hlen := h.len_nonneg
        have hlenLe := h.len_le
        have hcapacity := h.size_capacity
        have hcomplete' : b.len < b.size := hcomplete
        have huint : uint32 (b.len + 1) = b.len + 1 := uint32_of_bounds (by omega) (by omega)
        obtain ⟨kept, hkept, hcopied, hfits, hfits'⟩ : ∃ kept,
            (if b.allocated then min b.capacity size else uint32 (b.len + 1)) = kept ∧
              b.len < kept ∧ kept ≤ b.capacity ∧ kept ≤ size := by
          refine ⟨_, rfl, ?_⟩
          rw [huint]
          split_ifs
          all_goals omega
        have hsame : ∀ i, 0 ≤ i → i ≤ b.len → overlay fresh b.str 0 kept i = b.str i := by
          intro i hi hile
          rw [overlay_inside hi (by omega), sub_zero]
        refine Or.inr ⟨⟨overlay fresh b.str 0 kept, size, true, b.len, size, b.sizeMax⟩, ?_, ?_,
          hcomplete, rfl, rfl, hmore, henough, hsame⟩
        · rw [AVBPrint.alloc, if_neg hsize, if_neg (not_not.mpr hcomplete), hnew, Option.bind_some]
          simp only [hkept, hfits, hfits', and_self, if_true]
        · have hpos : 0 < size := by omega
          refine ⟨h.sizeMax_le, hpos.le, hmost, le_refl size, hpos, h.len_eq, ?_⟩
          intro i hi
          have hlt : (i : Int) < min b.len (size - 1) := hi
          have hold := h.kept i (by omega)
          exact hold.trans (congrArg some (hsame i (by omega) (by omega)).symm)
  · exact Or.inl ⟨-1, by decide, by rw [AVBPrint.alloc, if_neg hsize, if_pos hcomplete]⟩

/-- The loop ends, with the room that there is then. -/
theorem Keeps.makeRoom {n : Int} (hn : 0 ≤ n) (hnLe : n ≤ UINT_MAX) {fuel : Nat}
    (hfuel : (b.sizeMax - b.size).toNat < fuel) (h : b.Keeps text) (reallocs : Reallocs) :
    ∃ b', makeRoom n fuel reallocs b = some (b'.room, b') ∧ b'.Keeps text ∧
      b'.sizeMax = b.sizeMax := by
  induction fuel generalizing b reallocs with
  | zero => cases hfuel
  | succ fuel ih =>
      rw [AVBPrint.makeRoom]
      by_cases hroom : n < b.room
      · exact ⟨b, if_pos hroom, h, rfl⟩
      · simp only [if_neg hroom]
        rcases h.alloc (reallocs 0) n hn hnLe with ⟨rc, hrc, halloc⟩ | ⟨b', halloc, hb', _, _, hmax,
          hmore, _, _⟩
        · refine ⟨b, ?_, h, rfl⟩
          rw [halloc, Option.bind_some]
          exact if_pos hrc
        · have hsize := h.size_le
          have hle := hb'.size_le
          obtain ⟨b'', hrest, hb'', hmax'⟩ := ih (by omega) hb' (fun k => reallocs (k + 1))
          refine ⟨b'', ?_, hb'', hmax'.trans hmax⟩
          rw [halloc, Option.bind_some]
          exact (if_neg (not_not.mpr rfl)).trans hrest

theorem nul_stored (m : Bytes) (off : Int) : overlay m (fun _ => 0) off 1 off = 0 :=
  overlay_inside (le_refl off) (lt_add_one off)

/-- After the new bytes are stored as far as there is room for them, `grow`
counts and terminates them. -/
theorem Keeps.grow (h : b.Keeps text) (hbytes : (bytes.length : Int) ≤ UINT_MAX)
    (hnew : ∀ k : Nat, (k : Int) < min (bytes.length : Int) (b.size - 1 - b.len) →
      bytes[k]? = some (b.str (b.len + k))) :
    ∃ b', b.grow bytes.length = some b' ∧ b'.Holds (text ++ bytes) ∧ b'.sizeMax = b.sizeMax := by
  have hlen := h.len_nonneg
  have hlenLe := h.len_le
  have hlenEq := h.len_eq
  have hsize := h.size_nonneg
  have hcapacity := h.size_capacity
  have hle := h.size_le
  have hmax := h.sizeMax_le
  unfold UINT_MAX at *
  have hleft : uint32 (4294967295 - 5 - b.len) = 4294967290 - b.len :=
    uint32_of_bounds (by omega) (by omega)
  have hsum : uint32 (b.len + min (bytes.length : Int) (4294967290 - b.len)) =
      min ((text ++ bytes).length : Int) 4294967290 := by
    rw [uint32_of_bounds (by omega) (by omega), List.length_append, Nat.cast_add]
    omega
  simp only [AVBPrint.grow, UINT_MAX, hleft, hsum]
  generalize hnewLen : min ((text ++ bytes).length : Int) 4294967290 = newLen
  rw [List.length_append, Nat.cast_add] at hnewLen
  have hkept : ∀ i : Nat, (i : Int) < min newLen (b.size - 1) →
      (text ++ bytes)[i]? = some (b.str i) := by
    intro i hi
    by_cases hold : (i : Int) < b.len
    · rw [List.getElem?_append_left (by omega)]
      exact h.kept i (by omega)
    · -- there are new bytes behind the text only if the length is not saturated
      have hsat : b.len = text.length := by omega
      rw [List.getElem?_append_right (by omega), hnew (i - text.length) (by omega)]
      congr 2
      omega
  have hkeeps : ∀ str, (∀ i : Nat, (i : Int) < min newLen (b.size - 1) → str i = b.str i) →
      Keeps { b with str := str, len := newLen } (text ++ bytes) := by
    intro str hstr
    refine ⟨hmax, hsize, hle, hcapacity, h.capacity_pos, ?_, ?_⟩
    · rw [List.length_append, Nat.cast_add]
      exact hnewLen.symm
    · intro i hi
      exact (hkept i hi).trans (congrArg some (hstr i hi).symm)
  by_cases hzero : b.size = 0
  · refine ⟨_, if_neg (not_not.mpr hzero), ⟨hkeeps b.str (fun _ _ => rfl), ?_⟩, rfl⟩
    intro hpos
    exact absurd hzero hpos.ne'
  · have huint : uint32 (b.size - 1) = b.size - 1 := uint32_of_bounds (by omega) (by omega)
    rw [if_pos hzero, huint, store_eq (by omega) (by simp only; omega)]
    refine ⟨_, rfl, ⟨hkeeps _ ?_, ?_⟩, rfl⟩
    · intro i hi
      exact overlay_outside (Or.inl hi)
    · intro _
      exact nul_stored _ _

/-- What is stored behind the end leaves the text alone. -/
theorem Keeps.storeBehind (h : b.Keeps text) (src : Bytes) (off n : Int) (hoff : b.len ≤ off)
    (hend : off + n ≤ b.size) :
    ∃ b', b.store src off n = some b' ∧ b'.Keeps text ∧ b'.len = b.len ∧ b'.size = b.size ∧
      b'.sizeMax = b.sizeMax ∧ (∀ k, 0 ≤ k → k < n → b'.str (off + k) = src k) ∧
      ∀ i, i < off → b'.str i = b.str i := by
  have hlen := h.len_nonneg
  have hcapacity := h.size_capacity
  refine ⟨_, store_eq (by omega) (by omega), ?_, rfl, rfl, rfl, ?_, ?_⟩
  · refine ⟨h.sizeMax_le, h.size_nonneg, h.size_le, h.size_capacity, h.capacity_pos, h.len_eq, ?_⟩
    intro i hi
    have hlt : (i : Int) < off := lt_of_lt_of_le hi ((min_le_left _ _).trans hoff)
    exact (h.kept i hi).trans (congrArg some (overlay_outside (Or.inl hlt)).symm)
  · intro k hk hkLt
    simp only
    rw [overlay_inside (Int.le_add_of_nonneg_right hk) (Int.add_lt_add_left hkLt off),
      add_sub_cancel_left]
  · intro i hi
    exact overlay_outside (Or.inl hi)

theorem Keeps.append (h : b.Keeps text) (hbytes : (bytes.length : Int) ≤ UINT_MAX) (src : Bytes)
    (hsrc : ∀ k : Nat, k < bytes.length → bytes[k]? = some (src k)) (reallocs : Reallocs) :
    ∃ b', b.append reallocs src bytes.length = some b' ∧ b'.Holds (text ++ bytes) ∧
      b'.sizeMax = b.sizeMax := by
  obtain ⟨b₁, hloop, hb₁, hmax₁⟩ := h.makeRoom (by omega) hbytes (Nat.lt_succ_self _) reallocs
  have hroom := hb₁.room_eq
  have hlen := hb₁.len_nonneg
  have hle := hb₁.size_le
  have hmax := hb₁.sizeMax_le
  unfold UINT_MAX at hmax
  rw [AVBPrint.append, rounds, hloop, Option.bind_some]
  by_cases hzero : b₁.room = 0
  · obtain ⟨b', hgrow, hb', hmax'⟩ := hb₁.grow hbytes (fun k hk => by omega)
    refine ⟨b', ?_, hb', hmax'.trans hmax₁⟩
    simp only [if_neg (not_not.mpr hzero), Option.bind_some, hgrow]
  · have huint : uint32 (b₁.room - 1) = b₁.size - b₁.len - 1 := by
      rw [uint32_of_bounds (by omega) (by omega)]
      omega
    have hend : b₁.len + min (bytes.length : Int) (b₁.size - b₁.len - 1) ≤ b₁.size := by omega
    obtain ⟨b₂, hstore, hb₂, hlen₂, hsize₂, hmax₂, hnew, _⟩ :=
      hb₁.storeBehind src b₁.len _ (le_refl _) hend
    obtain ⟨b', hgrow, hb', hmax'⟩ := hb₂.grow hbytes (by
      intro k hk
      rw [hlen₂, hnew k (by omega) (by omega)]
      exact hsrc k (by omega))
    refine ⟨b', ?_, hb', hmax'.trans (hmax₂.trans hmax₁)⟩
    simp only [if_pos hzero, huint, hstore, Option.bind_some, hgrow]

theorem getElem?_bytesOf {l : List UInt8} {k : Nat} (hk : k < l.length) :
    l[k]? = some (bytesOf l k) := by
  simp [bytesOf, hk]

theorem Keeps.chars (h : b.Keeps text) (reallocs : Reallocs) (c : UInt8) {n : Int} (hn : 0 ≤ n)
    (hnLe : n ≤ UINT_MAX) :
    ∃ b', b.chars reallocs c n = some b' ∧ b'.Holds (text ++ List.replicate n.toNat c) ∧
      b'.sizeMax = b.sizeMax := by
  have hlength : ((List.replicate n.toNat c).length : Int) = n := by
    rw [List.length_replicate, Int.toNat_of_nonneg hn]
  have hsrc : ∀ k : Nat, k < (List.replicate n.toNat c).length →
      (List.replicate n.toNat c)[k]? = some c := by
    intro k hk
    rw [List.length_replicate] at hk
    exact List.getElem?_replicate_of_lt hk
  have happend := h.append (hlength.trans_le hnLe) (fun _ => c) hsrc reallocs
  rwa [hlength] at happend

theorem Keeps.appendData (h : b.Keeps text) (reallocs : Reallocs) {data : List UInt8}
    (hdata : (data.length : Int) ≤ UINT_MAX) :
    ∃ b', b.appendData reallocs data = some b' ∧ b'.Holds (text ++ data) ∧
      b'.sizeMax = b.sizeMax :=
  h.append hdata (bytesOf data) (fun _ hk => getElem?_bytesOf hk) reallocs

/-- What `vsnprintf` stores, the NUL behind an empty text included. -/
theorem Keeps.vsnprintf (h : b.Keeps text) (bytes : List UInt8) :
    ∃ b', b.vsnprintf b.room bytes = some b' ∧ b'.Keeps text ∧ b'.len = b.len ∧
      b'.size = b.size ∧ b'.sizeMax = b.sizeMax ∧
      (∀ k : Nat, (k : Int) < min (bytes.length : Int) (b.size - 1 - b.len) →
        bytes[k]? = some (b'.str (b.len + k))) ∧
      (bytes = [] → b.Holds text → b'.Holds text) := by
  have hroom := h.room_eq
  have hlen := h.len_nonneg
  by_cases hzero : b.room = 0
  · refine ⟨b, if_pos hzero, h, rfl, rfl, rfl, fun k hk => by omega, ?_⟩
    intro _ hold
    exact hold
  · generalize hn : min (bytes.length : Int) (b.room - 1) = n
    obtain ⟨b₁, hstore₁, hb₁, hlen₁, hsize₁, hmax₁, hnew, _⟩ :=
      h.storeBehind (bytesOf bytes) b.len n (le_refl _) (by omega)
    obtain ⟨b₂, hstore₂, hb₂, hlen₂, hsize₂, hmax₂, hnul, hbefore⟩ :=
      hb₁.storeBehind (fun _ => 0) (b₁.len + n) 1 (by omega) (by omega)
    refine ⟨b₂, ?_, hb₂, hlen₂.trans hlen₁, hsize₂.trans hsize₁, hmax₂.trans hmax₁, ?_, ?_⟩
    · simp only [AVBPrint.vsnprintf, if_neg hzero, hn, hstore₁, Option.bind_some, hstore₂]
    · intro k hk
      rw [hbefore _ (by omega), hnew k (by omega) (by omega)]
      exact getElem?_bytesOf (by omega)
    · intro hempty _
      refine ⟨hb₂, fun _ => ?_⟩
      subst hempty
      have hlength : ((([] : List UInt8).length : Nat) : Int) = 0 := rfl
      have hend := hnul 0 (le_refl 0) Int.one_pos
      have hwhere : min b₂.len (b₂.size - 1) = b₁.len + n + 0 := by omega
      rw [hwhere, hend]

theorem Keeps.vbprintfLoop (hbytes : (bytes.length : Int) ≤ 2147483647) (hne : bytes ≠ [])
    {fuel : Nat} (hfuel : (b.sizeMax - b.size).toNat < fuel) (h : b.Keeps text)
    (reallocs : Reallocs) :
    ∃ b', vbprintfLoop bytes fuel reallocs b = some b' ∧ b'.Holds (text ++ bytes) ∧
      b'.sizeMax = b.sizeMax := by
  have hpos : ¬(bytes.length : Int) ≤ 0 := by
    have hlength := List.length_pos_iff.mpr hne
    omega
  have hbytesLe : (bytes.length : Int) ≤ UINT_MAX := hbytes.trans (by decide)
  induction fuel generalizing b reallocs with
  | zero => cases hfuel
  | succ fuel ih =>
      obtain ⟨b₁, hprint, hb₁, hlen₁, hsize₁, hmax₁, hnew, _⟩ := h.vsnprintf bytes
      rw [AVBPrint.vbprintfLoop, hprint, Option.bind_some, if_neg hpos]
      have hgrow := hb₁.grow hbytesLe (by rwa [hlen₁, hsize₁])
      rw [hmax₁] at hgrow
      by_cases hroom : (bytes.length : Int) < b.room
      · rwa [if_pos hroom]
      · rw [if_neg hroom]
        rcases hb₁.alloc (reallocs 0) bytes.length (by omega) hbytesLe with ⟨rc, hrc, halloc⟩ |
          ⟨b₂, halloc, hb₂, _, _, hmax₂, hmore, _, _⟩
        · rw [halloc, Option.bind_some, if_pos hrc]
          exact hgrow
        · have hsize := hb₁.size_le
          have hle := hb₂.size_le
          obtain ⟨b', hrest, hb', hmax'⟩ := ih (by omega) hb₂ (fun k => reallocs (k + 1))
          refine ⟨b', ?_, hb', hmax'.trans (hmax₂.trans hmax₁)⟩
          rw [halloc, Option.bind_some]
          exact (if_neg (not_not.mpr rfl)).trans hrest

/-- `av_vbprintf` returns early if there is nothing to print. -/
theorem Holds.vbprintf (h : b.Holds text) (reallocs : Reallocs)
    (hbytes : (bytes.length : Int) ≤ 2147483647) :
    ∃ b', b.vbprintf reallocs bytes = some b' ∧ b'.Holds (text ++ bytes) ∧
      b'.sizeMax = b.sizeMax := by
  by_cases hempty : bytes = []
  · obtain ⟨b', hprint, _, _, _, hmax, _, hholds⟩ := h.toKeeps.vsnprintf bytes
    refine ⟨b', ?_, ?_, hmax⟩
    · rw [AVBPrint.vbprintf, rounds, AVBPrint.vbprintfLoop, hprint, Option.bind_some, hempty]
      exact if_pos (le_refl 0)
    · rw [hempty, List.append_nil]
      exact hholds hempty h
  · exact h.toKeeps.vbprintfLoop hbytes hempty (Nat.lt_succ_self _) reallocs

theorem Holds.clear (h : b.Holds text) :
    ∃ b', b.clear = some b' ∧ b'.Holds [] ∧ b'.sizeMax = b.sizeMax := by
  by_cases hzero : b.len = 0
  · have hlen := h.len_eq
    unfold UINT_MAX at hlen
    obtain rfl : text = [] := List.eq_nil_of_length_eq_zero (by omega)
    exact ⟨b, if_neg (not_not.mpr hzero), h, rfl⟩
  · have hcapacity := h.capacity_pos
    refine ⟨{ b with str := overlay b.str (fun _ => 0) 0 1, len := 0 }, ?_, ⟨?_, ?_⟩, rfl⟩
    · rw [AVBPrint.clear, if_pos hzero, store_eq (le_refl 0) (by omega), Option.map_some]
    · refine ⟨h.sizeMax_le, h.size_nonneg, h.size_le, h.size_capacity, hcapacity, rfl, ?_⟩
      intro i hi
      have hlt : (i : Int) < 0 := lt_of_lt_of_le hi (min_le_left _ _)
      omega
    · intro hpos
      have hsize : 0 < b.size := hpos
      have hwhere : min 0 (b.size - 1) = 0 := by omega
      simp only [hwhere]
      exact nul_stored _ _

/-- Any buffer that is set up holds the empty text. -/
theorem init_holds (reserved : Bytes) (realloc : Option Bytes) {sizeInit sizeMax : Int}
    (hinit : sizeInit ≤ UINT_MAX) (hmax : 0 ≤ sizeMax) (hmaxLe : sizeMax ≤ UINT_MAX) :
    ∃ b, init reserved realloc sizeInit sizeMax = some b ∧ b.Holds [] ∧
      b.sizeMax = if sizeMax = 1 then sizeAuto else sizeMax := by
  generalize hcap : (if sizeMax = 1 then sizeAuto else sizeMax) = cap
  have hcapLe : 0 ≤ cap ∧ cap ≤ UINT_MAX := by
    rw [← hcap]
    unfold sizeAuto UINT_MAX at *
    split_ifs
    all_goals omega
  generalize hstart : (⟨overlay reserved (fun _ => 0) 0 1, sizeAuto, false, 0,
    min sizeAuto cap, cap⟩ : AVBPrint) = b
  have hb : b.Holds [] := by
    subst hstart
    unfold sizeAuto at *
    refine ⟨⟨hcapLe.2, le_min zero_le_four hcapLe.1, min_le_right _ _, min_le_left _ _,
      zero_lt_four, rfl, ?_⟩, ?_⟩
    · intro i hi
      have hlt : (i : Int) < 0 := lt_of_lt_of_le hi (min_le_left _ _)
      omega
    · intro hpos
      have hsize : 0 < min 4 cap := hpos
      have hwhere : min 0 (min 4 cap - 1) = 0 := by omega
      simp only [hwhere]
      exact nul_stored _ _
  have hbMax : b.sizeMax = cap := by rw [← hstart]
  have hbSize : b.size = min sizeAuto cap := by rw [← hstart]
  simp only [init, hcap, hstart]
  split_ifs with hmore
  · have hsize := hb.size_nonneg
    have huint : uint32 (sizeInit - 1) = sizeInit - 1 := by
      unfold UINT_MAX at hinit
      exact uint32_of_bounds (by omega) (by omega)
    rw [huint]
    rcases hb.toKeeps.alloc realloc (sizeInit - 1) (by omega) (by omega) with
      ⟨rc, _, halloc⟩ | ⟨b', halloc, hb', hcomplete, hlen, hmax', hgrown, _, hsame⟩
    · exact ⟨b, by rw [halloc, Option.map_some], hb, hbMax⟩
    · refine ⟨b', by rw [halloc, Option.map_some], ⟨hb', fun _ => ?_⟩, hmax'.trans hbMax⟩
      have hlenNonneg := hb.len_nonneg
      unfold isComplete at hcomplete
      have hwhere : min b'.len (b'.size - 1) = min b.len (b.size - 1) := by omega
      rw [hwhere, hsame _ (by omega) (min_le_left _ _)]
      exact hb.terminated (by omega)
  · exact ⟨b, rfl, hb, hbMax⟩

end

end AVBPrint

/-! ## Sequences of calls -/

/-- A call with what its `realloc` calls return. -/
inductive PrintCall where
  | chars (c : UInt8) (n : Int) (reallocs : Reallocs)
  | appendData (data : List UInt8) (reallocs : Reallocs)
  | vbprintf (text : List UInt8) (reallocs : Reallocs)
  | clear

namespace PrintCall

/-- Counts are `unsigned`, and `vsnprintf` returns the length of its text as an `int`. -/
def InRange : PrintCall → Prop
  | .chars _ n _ => 0 ≤ n ∧ n ≤ UINT_MAX
  | .appendData data _ => (data.length : Int) ≤ UINT_MAX
  | .vbprintf text _ => (text.length : Int) ≤ 2147483647
  | .clear => True

/-- The text after the call, if nothing was lost. -/
def appended (text : List UInt8) : PrintCall → List UInt8
  | .chars c n _ => text ++ List.replicate n.toNat c
  | .appendData data _ => text ++ data
  | .vbprintf new _ => text ++ new
  | .clear => []

end PrintCall

namespace AVBPrint

def next (b : AVBPrint) : PrintCall → Option AVBPrint
  | .chars c n reallocs => b.chars reallocs c n
  | .appendData data reallocs => b.appendData reallocs data
  | .vbprintf text reallocs => b.vbprintf reallocs text
  | .clear => b.clear

/-- What the buffer shows of the text that was appended since the last clear. -/
structure Faithful (b : AVBPrint) (sizeMax : Int) (text : List UInt8) : Prop where
  size_le : b.size ≤ sizeMax
  len_eq : b.len = min (text.length : Int) (UINT_MAX - 5)
  prefix_ : 0 < b.size → ∀ i : Nat, (i : Int) < min b.len (b.size - 1) →
    text[i]? = some (b.str i)
  terminated : 0 < b.size → b.str (min b.len (b.size - 1)) = 0
  complete_iff : 0 < b.size → (text.length : Int) < UINT_MAX - 5 →
    (b.isComplete ↔ (text.length : Int) ≤ min b.len (b.size - 1))

variable {b : AVBPrint} {text : List UInt8}

theorem Holds.faithful (h : b.Holds text) : b.Faithful b.sizeMax text where
  size_le := h.size_le
  len_eq := h.len_eq
  prefix_ := fun _ => h.kept
  terminated := h.terminated
  complete_iff := by
    intro hpos hshort
    have hlen := h.len_eq
    unfold isComplete
    omega

/-- One call, whatever its allocations do. -/
theorem Holds.next (h : b.Holds text) {call : PrintCall} (hcall : call.InRange) :
    ∃ b', b.next call = some b' ∧ b'.Holds (call.appended text) ∧ b'.sizeMax = b.sizeMax := by
  cases call with
  | chars c n reallocs => exact h.toKeeps.chars reallocs c hcall.1 hcall.2
  | appendData data reallocs => exact h.toKeeps.appendData reallocs hcall
  | vbprintf new reallocs => exact h.vbprintf reallocs hcall
  | clear => exact h.clear

theorem Holds.steps (h : b.Holds text) {calls : List PrintCall}
    (hcalls : ∀ call ∈ calls, call.InRange) :
    ∃ b', steps AVBPrint.next b calls = some b' ∧ b'.Holds (calls.foldl PrintCall.appended text) ∧
      b'.sizeMax = b.sizeMax := by
  induction calls generalizing b text with
  | nil => exact ⟨b, rfl, h, rfl⟩
  | cons call calls ih =>
      obtain ⟨b₁, hstep, hb₁, hmax₁⟩ := h.next (hcalls call List.mem_cons_self)
      obtain ⟨b', hrest, hb', hmax'⟩ :=
        ih hb₁ (fun call' hcall' => hcalls call' (List.mem_cons_of_mem call hcall'))
      refine ⟨b', ?_, hb', hmax'.trans hmax₁⟩
      rw [Lib.steps, hstep, Option.bind_some, hrest]

/-- Every sequence of calls on a buffer that was set up has a result, and the
buffer then shows what was appended. -/
theorem print_buffer_faithful (reserved : Bytes) (realloc : Option Bytes) {sizeInit sizeMax : Int}
    (hinit : sizeInit ≤ UINT_MAX) (hmax : 0 ≤ sizeMax) (hmaxLe : sizeMax ≤ UINT_MAX)
    {calls : List PrintCall} (hcalls : ∀ call ∈ calls, call.InRange) :
    ∃ b₀ b, init reserved realloc sizeInit sizeMax = some b₀ ∧ steps next b₀ calls = some b ∧
      b.Faithful (if sizeMax = 1 then sizeAuto else sizeMax)
        (calls.foldl PrintCall.appended []) := by
  obtain ⟨b₀, hsetup, hb₀, hmax₀⟩ := init_holds reserved realloc hinit hmax hmaxLe
  obtain ⟨b, hrun, hb, hmax'⟩ := hb₀.steps hcalls
  refine ⟨b₀, b, hsetup, hrun, ?_⟩
  rw [← hmax₀, ← hmax']
  exact hb.faithful

/-- Two appends that grow the buffer to its limit of ten bytes and over it; the
second allocation fails. -/
def overfull : List PrintCall :=
  [.appendData [104, 101, 108, 108, 111] (fun _ => some fun _ => 7), .chars 33 9 (fun _ => none),
    .vbprintf [63] (fun _ => some fun _ => 7)]

theorem print_buffer_faithful_overfull :
    (∀ call ∈ overfull, call.InRange) ∧
      ∃ b₀ b, init (fun _ => 9) none 0 10 = some b₀ ∧ steps next b₀ overfull = some b ∧
        b.Faithful (if (10 : Int) = 1 then sizeAuto else 10)
          (overfull.foldl PrintCall.appended []) := by
  have hcalls : ∀ call ∈ overfull, call.InRange := by
    intro call hcall
    fin_cases hcall
    · exact (by decide : (5 : Int) ≤ UINT_MAX)
    · exact ⟨by decide, by decide⟩
    · exact (by decide : (1 : Int) ≤ 2147483647)
  exact ⟨hcalls, print_buffer_faithful _ none (by decide) (by decide) (by decide) hcalls⟩

/-- The five letters went to a block of eight bytes, and of the marks two. -/
example : (((init (fun _ => 9) none 0 10).bind fun b => steps next b overfull).map fun b =>
    (b.len, b.size, [b.str 0, b.str 4, b.str 5, b.str 6, b.str 7])) =
      some (15, 8, [104, 111, 33, 33, 0]) := by decide +kernel

end AVBPrint

end SqliteFs
