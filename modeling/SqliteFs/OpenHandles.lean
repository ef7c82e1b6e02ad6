import SqliteFs.OpenList

/-!
Any sequence of opens and closes on memory. The caller closes each handle that
was opened once and opens a journal while its database is open; the allocator
gives blocks that are not in use. Then no call fails an assertion or touches a
block that was freed, and after every call the list is as it should be.
-/

namespace SqliteFs

open Lib

/-- The memory of the VFS, the parent's files and the caller's open handles. -/
structure OpenList where
  memory : Memory
  disk : Disk
  handles : List Handle

inductive ListCall where
  | xOpen (id : Nat) (zName : Name) (flags : Nat) (malloc : Option Nat) (methods : Bool)
    (io : Outcomes)
  | xClose (id : Nat) (io : Outcomes)

namespace OpenList

def start (disk : Disk) : OpenList := ⟨.init, disk, []⟩

def handle (s : OpenList) (id : Nat) : Option Handle := s.handles.find? fun h => h.id = id

/-- One call. A handle whose open failed is not used again. -/
def next (s : OpenList) : ListCall → Option OpenList
  | .xOpen id zName flags malloc methods io =>
    (s.memory.fsOpen s.disk ⟨false, .database, 0⟩ zName flags malloc methods io).map fun out =>
      ⟨out.memory, out.disk,
        if out.rc = .ok then ⟨id, Sys.dbName zName flags, out.file⟩ :: s.handles else s.handles⟩
  | .xClose id io =>
    (s.handle id).bind fun h => (s.memory.fsClose h.file io).map fun out =>
      ⟨out.2, s.disk, s.handles.filter fun h => h.id ≠ id⟩

/-- What the caller and the allocator keep to: an open is of a handle that is
not open, a new block is not in use, a journal has an open database whose name
it continues by eight bytes, and a close is of an open handle. -/
def Allowed (s : OpenList) : ListCall → Prop
  | .xOpen id zName flags malloc _ _ =>
    s.handle id = none ∧ (∀ a, malloc = some a → a ∉ s.memory.blocks) ∧
      (openType flags = .journal → 8 ≤ zName.length ∧
        ∃ h ∈ s.handles, h.file.eType = .database ∧ h.zDb = zName.take (zName.length - 8))
  | .xClose id _ => s.handle id ≠ none

/-- The open-file list of a state is `l`: it ends in a null pointer and every
record's `ppThis` is the link that points to it, no record is listed twice,
every listed record counts its handles, of which it has one, every handle is
bound to a listed record, and the listed records are the allocated ones. -/
structure Listed (s : OpenList) (l : List Nat) : Prop where
  spells : s.memory.links.Spells .head l
  nodup : l.Nodup
  refs : ∀ a ∈ l, 1 ≤ (s.memory.real a).nRef ∧
    (s.memory.real a).nRef = s.handles.countP fun h => h.file.pReal = a
  bound : ∀ h ∈ s.handles, h.file.pReal ∈ l
  blocks : ∀ a, a ∈ s.memory.blocks ↔ a ∈ l
  empty : s.handles = [] → l = []

/-- The call closes the last handle on the record. -/
def ClosesLast (s : OpenList) (a : Nat) : ListCall → Prop
  | .xOpen .. => False
  | .xClose id _ => ∃ h, s.handle id = some h ∧ h.file.pReal = a ∧
    ∀ h' ∈ s.handles, h'.file.pReal = a → h'.id = id

/-- The memory represents a list whose handles are accounted for, and the
record of a database handle has its name, as far as that goes. -/
structure Consistent (s : OpenList) (v : FsVfs) : Prop where
  represents : s.memory.Represents v
  wf : (⟨v, s.disk, s.handles⟩ : Sys).WellFormed
  named : ∀ h ∈ s.handles, h.file.eType = .database →
    (v.real h.file.pReal).zName.take h.zDb.length = h.zDb

theorem start_consistent (disk : Disk) : (start disk).Consistent FsVfs.init where
  represents := Memory.init_represents
  wf := Sys.start_wellFormed disk
  named := fun _ hmem => by cases hmem

variable {s t : OpenList} {v : FsVfs}

theorem handle_eq_some {id : Nat} {h : Handle} (hh : s.handle id = some h) :
    h ∈ s.handles ∧ h.id = id :=
  ⟨List.mem_of_find?_eq_some hh, by simpa using List.find?_some hh⟩

/-- A journal whose database is open is found in the list. -/
theorem Consistent.journal_found (hs : s.Consistent v) {zName : Name} {flags : Nat}
    (htype : openType flags = .journal) (hlen : 8 ≤ zName.length) {h : Handle}
    (hmem : h ∈ s.handles) (hdatabase : h.file.eType = .database)
    (hname : h.zDb = zName.take (zName.length - 8)) :
    v.findReal zName (nameLength zName (openType flags)) ≠ none := by
  intro hnone
  have hnamed := hs.named h hmem hdatabase
  have hlisted : h.file.pReal ∈ v.pFileList := hs.wf.bound h hmem
  have hlength : nameLength zName (openType flags) = ((zName.length - 8 : Nat) : Int) := by
    rw [htype]
    simp only [nameLength, if_true]
    omega
  apply FsVfs.findReal_none hnone _ hlisted
  rw [hname, List.length_take, min_eq_left (Nat.sub_le _ _)] at hnamed
  rw [hlength, sizeT_natCast]
  exact hnamed

/-- An open of a database binds its handle to a record that has its name. -/
theorem named_of_found {zName : Name} {flags : Nat} {a : Nat}
    (hfound : v.findReal zName (nameLength zName (openType flags)) = some a)
    (htype : openType flags = .database) :
    (v.real a).zName.take (Sys.dbName zName flags).length = Sys.dbName zName flags := by
  have hagree := (FsVfs.findReal_some hfound).2
  have hlength : nameLength zName (openType flags) = (zName.length : Int) := by
    rw [htype]
    simp [nameLength]
  rw [hlength, sizeT_natCast, List.take_length] at hagree
  simpa only [Sys.dbName, if_pos htype] using hagree

section

variable {id : Nat} {zName : Name} {flags : Nat} {malloc : Option Nat} {methods : Bool}
  {io : Outcomes} {m : Memory} {disk : Disk} {file : FsFile}

theorem next_opened
    (hopen : s.memory.fsOpen s.disk ⟨false, .database, 0⟩ zName flags malloc methods io =
      some ⟨.ok, m, disk, file⟩) :
    s.next (.xOpen id zName flags malloc methods io) =
      some ⟨m, disk, ⟨id, Sys.dbName zName flags, file⟩ :: s.handles⟩ := by
  rw [next, hopen]
  rfl

theorem next_failed {rc : Rc} (hrc : rc ≠ .ok)
    (hopen : s.memory.fsOpen s.disk ⟨false, .database, 0⟩ zName flags malloc methods io =
      some ⟨rc, m, disk, file⟩) :
    s.next (.xOpen id zName flags malloc methods io) = some ⟨m, disk, s.handles⟩ := by
  rw [next, hopen, Option.map_some]
  simp only [if_neg hrc]

end

/-- Closing keeps the names of the records. -/
theorem fsClose_zName {p : FsFile} {io : Outcomes} {rc : Rc} {v' : FsVfs}
    (hclose : fsClose v p io = some (rc, v')) (a : Nat) :
    (v'.real a).zName = (v.real a).zName := by
  rcases Sys.fsClose_cases hclose with ⟨-, -, rfl⟩ | ⟨-, -, rfl⟩
  · exact v.setRef_zName ..
  · exact v.setRef_zName ..

/-- Every allowed open ends, and leaves a consistent state. -/
theorem Consistent.xOpen (hs : s.Consistent v) {id : Nat} {zName : Name} {flags : Nat}
    {malloc : Option Nat} {methods : Bool} {io : Outcomes}
    (hallowed : s.Allowed (.xOpen id zName flags malloc methods io)) :
    ∃ t v', s.next (.xOpen id zName flags malloc methods io) = some t ∧ t.Consistent v' := by
  obtain ⟨hid, hfresh, hjournal⟩ := hallowed
  have hnew : id ∉ s.handles.map Handle.id :=
    Sys.handle_eq_none (s := ⟨v, s.disk, s.handles⟩) hid
  have hkept : ∀ disk, (⟨v, disk, s.handles⟩ : Sys).WellFormed := fun disk =>
    ⟨hs.wf.nodup, hs.wf.names, hs.wf.ids, hs.wf.bound, hs.wf.refs, hs.wf.live⟩
  rcases hs.represents.fsOpen_cases s.disk ⟨false, .database, 0⟩ zName flags methods io hfresh with
    ⟨a, hfound, heq⟩ | ⟨hnone, ⟨htype, -⟩ | ⟨htype, hmalloc, heq⟩ | ⟨htype, hrc, a, m', hmalloc,
      heq, hm'⟩ | ⟨htype, hrc, a, m', hmalloc, heq, hsame⟩⟩
  · have ha := (FsVfs.findReal_some hfound).1
    refine ⟨_, v.setRef a ((v.real a).nRef + 1), next_opened heq, ?_, ?_, ?_⟩
    · rw [hs.represents.real a ha]
      exact hs.represents.setRef a _ ha
    · exact hs.wf.bind (h := ⟨id, Sys.dbName zName flags, ⟨true, openType flags, a⟩⟩) ha hnew
    · intro h hmem hdatabase
      rw [FsVfs.setRef_zName]
      rcases List.mem_cons.mp hmem with rfl | hold
      · exact named_of_found hfound hdatabase
      · exact hs.named h hold hdatabase
  · -- the assertion: a journal is found, since its database is open
    cases hflags : openType flags with
    | database => exact absurd hflags htype
    | journal =>
        obtain ⟨hlen, h, hmem, hdatabase, hname⟩ := hjournal hflags
        exact absurd hnone (hs.journal_found hflags hlen hmem hdatabase hname)
  · have hrc : Rc.nomem ≠ .ok := nofun
    exact ⟨_, v, next_failed hrc heq, hs.represents, hkept s.disk, hs.named⟩
  · have ha : a ∉ v.pFileList := by
      rw [← hs.represents.mem_blocks]
      exact hfresh a hmalloc
    refine ⟨_, _, next_opened heq, hm', ?_, ?_⟩
    · exact hs.wf.insert (h := ⟨id, Sys.dbName zName flags, ⟨true, openType flags, a⟩⟩) ha rfl
        (Sys.findReal_none_name hnone) hnew
    · intro h hmem hdatabase
      rcases List.mem_cons.mp hmem with rfl | hold
      · simp only [Function.update_self, Sys.dbName, if_pos htype, List.take_length]
      · have hother : h.file.pReal ≠ a := by
          rintro rfl
          exact ha (hs.wf.bound h hold)
        simp only [Function.update_of_ne hother]
        exact hs.named h hold hdatabase
  · exact ⟨_, v, next_failed hrc heq, hsame.represents hs.represents, hkept _, hs.named⟩

/-- Every close of an open handle ends, and leaves a consistent state. -/
theorem Consistent.xClose (hs : s.Consistent v) {id : Nat} {io : Outcomes}
    (hallowed : s.Allowed (.xClose id io)) :
    ∃ t v', s.next (.xClose id io) = some t ∧ t.Consistent v' := by
  obtain ⟨h, hh⟩ := Option.ne_none_iff_exists'.mp hallowed
  have hmem := (handle_eq_some hh).1
  have hlisted : h.file.pReal ∈ v.pFileList := hs.wf.bound h hmem
  have hlive := hs.wf.live _ hlisted
  have hcloses : ∃ out, fsClose v h.file io = some out := by
    unfold fsClose
    simp only
    rw [if_neg (by simp only at hlive; omega)]
    split_ifs
    · exact ⟨_, rfl⟩
    · exact ⟨_, rfl⟩
  obtain ⟨⟨rc, v'⟩, hclose⟩ := hcloses
  have hrel := hs.represents.fsClose h.file io hlisted
  rw [hclose] at hrel
  generalize hmemory : s.memory.fsClose h.file io = out at hrel
  cases hrel with
  | @some out _ hout =>
      refine ⟨_, v', by rw [next, hh, Option.bind_some, hmemory]; rfl, hout.2, ?_, ?_⟩
      · exact hs.wf.close (s := ⟨v, s.disk, s.handles⟩) hh hclose
      · intro h' hmem' hdatabase
        rw [fsClose_zName hclose]
        exact hs.named h' (List.mem_of_mem_filter hmem') hdatabase

theorem Consistent.step (hs : s.Consistent v) {c : ListCall} (hallowed : s.Allowed c) :
    ∃ t v', s.next c = some t ∧ t.Consistent v' := by
  cases c with
  | xOpen id zName flags malloc methods io => exact hs.xOpen hallowed
  | xClose id io => exact hs.xClose hallowed

theorem consistent_run {disk : Disk} {calls : List ListCall}
    (hrun : Run next Allowed (start disk) calls s) : ∃ v, s.Consistent v := by
  apply hrun.invariant (fun s => ∃ v, s.Consistent v) ?_ ⟨_, start_consistent disk⟩
  rintro s c t ⟨v, hs⟩ hallowed hnext
  obtain ⟨t', v', hnext', ht⟩ := hs.step hallowed
  obtain rfl := Option.some.inj (hnext.symm.trans hnext')
  exact ⟨v', ht⟩

theorem Consistent.listed (hs : s.Consistent v) : s.Listed v.pFileList where
  spells := hs.represents.spells
  nodup := hs.wf.nodup
  refs := by
    intro a ha
    rw [hs.represents.real a ha]
    exact ⟨hs.wf.live a ha, hs.wf.refs a ha⟩
  bound := hs.wf.bound
  blocks := fun a => hs.represents.mem_blocks
  empty := by
    intro hnone
    rw [List.eq_nil_iff_forall_not_mem]
    intro a ha
    have href : (v.real a).nRef = s.handles.countP fun h => h.file.pReal = a := hs.wf.refs a ha
    have hlive : 0 < (v.real a).nRef := hs.wf.live a ha
    rw [hnone, List.countP_nil] at href
    omega

/-- A record is listed as long as a handle is bound to it. -/
theorem Listed.mem_iff {l : List Nat} (hl : s.Listed l) {a : Nat} :
    a ∈ l ↔ ∃ h ∈ s.handles, h.file.pReal = a := by
  constructor
  · intro ha
    obtain ⟨hlive, href⟩ := hl.refs a ha
    have hpos : 0 < s.handles.countP fun h => h.file.pReal = a := by omega
    obtain ⟨h, hmem, heq⟩ := List.countP_pos_iff.mp hpos
    exact ⟨h, hmem, of_decide_eq_true heq⟩
  · rintro ⟨h, hmem, rfl⟩
    exact hl.bound h hmem

/-- A call frees the records whose last handle it closes. -/
theorem freed_iff {l l' : List Nat} {c : ListCall} (hids : (s.handles.map Handle.id).Nodup)
    (hl : s.Listed l) (hl' : t.Listed l') (hnext : s.next c = some t) {a : Nat} (ha : a ∈ l) :
    a ∉ l' ↔ s.ClosesLast a c := by
  rw [hl'.mem_iff]
  obtain ⟨h, hmem, rfl⟩ := hl.mem_iff.mp ha
  cases c with
  | xOpen id zName flags malloc methods io =>
      obtain ⟨out, -, rfl⟩ := Option.map_eq_some_iff.mp hnext
      simp only [ClosesLast, iff_false, not_not]
      refine ⟨h, ?_, rfl⟩
      split_ifs
      · exact List.mem_cons_of_mem _ hmem
      · exact hmem
  | xClose id io =>
      obtain ⟨h₀, hh₀, hout⟩ := Option.bind_eq_some_iff.mp hnext
      obtain ⟨out, -, rfl⟩ := Option.map_eq_some_iff.mp hout
      simp only [ClosesLast, List.mem_filter, decide_eq_true_eq, not_exists, not_and]
      constructor
      · intro hgone
        have hall : ∀ h' ∈ s.handles, h'.file.pReal = h.file.pReal → h'.id = id := by
          intro h' hmem' heq
          by_contra hne
          exact hgone h' ⟨hmem', hne⟩ heq
        obtain ⟨hmem₀, hid₀⟩ := handle_eq_some hh₀
        have hsame : h₀ = h := List.inj_on_of_nodup_map hids hmem₀ hmem
          (hid₀.trans (hall h hmem rfl).symm)
        exact ⟨h₀, hh₀, by rw [hsame], hall⟩
      · rintro ⟨-, -, -, hall⟩ h' ⟨hmem', hne⟩ heq
        exact hne (hall h' hmem' heq)

/-- In every run of opens and closes the list from `pFileList` is in order
after every call, and whatever is allowed next ends and frees exactly the
records whose last handle it closes. -/
theorem open_list_consistent {disk : Disk} {calls : List ListCall}
    (hrun : Run next Allowed (start disk) calls s) :
    (∃ l, s.Listed l) ∧ ∀ c, s.Allowed c → ∃ t, s.next c = some t ∧
      ∀ a ∈ s.memory.blocks, a ∉ t.memory.blocks ↔ s.ClosesLast a c := by
  obtain ⟨v, hs⟩ := consistent_run hrun
  refine ⟨⟨_, hs.listed⟩, ?_⟩
  intro c hallowed
  obtain ⟨t, v', hnext, ht⟩ := hs.step hallowed
  refine ⟨t, hnext, ?_⟩
  intro a ha
  rw [ht.listed.blocks]
  exact freed_iff hs.wf.ids hs.listed ht.listed hnext ((hs.listed.blocks a).mp ha)

/-- The database `"db"` in block 7, and its journal. -/
def twoOpens : List ListCall :=
  [.xOpen 0 [100, 98] SQLITE_OPEN_MAIN_DB (some 7) false carriedOut,
    .xOpen 1 ([100, 98] ++ journalSuffix) 0 Option.none false carriedOut]

theorem twoOpens_allowed : Along next Allowed (start fun _ => .blank) twoOpens := by
  apply Along.cons_after (by decide +kernel)
  · refine ⟨rfl, fun a ha => ?_, fun htype => absurd htype (by decide)⟩
    obtain rfl := Option.some.inj ha
    decide
  · refine ⟨⟨by decide +kernel, nofun, fun _ => by decide +kernel⟩, fun _ _ => trivial⟩

/-- Both opens succeed, and the one record in the list counts both. -/
theorem open_list_consistent_two : ∃ l,
    (after next (start fun _ => .blank) twoOpens).Listed l ∧
      (∀ a, a ∈ l ↔ a ∈ (after next (start fun _ => .blank) twoOpens).memory.blocks) ∧
      (after next (start fun _ => .blank) twoOpens).handles.map (fun h => (h.id, h.file.pReal)) =
        [(1, 7), (0, 7)] ∧
      ((after next (start fun _ => .blank) twoOpens).memory.real 7).nRef = 2 := by
  obtain ⟨⟨l, hl⟩, -⟩ := open_list_consistent (Run.of_along twoOpens_allowed (by decide +kernel))
  exact ⟨l, hl, fun a => (hl.blocks a).symm, by decide +kernel, by decide +kernel⟩

/-! ## Opens that fail -/

/-- What the caller of `xOpen` is promised when it fails: the handle is not to
be closed, so `sqlite3OsClose` does nothing with it, and the memory is as it
was before the call. -/
structure LeavesNothing (m : Memory) (out : Memory.Opening) : Prop where
  pMethods : out.file.pMethods = false
  closes : ∀ io, out.memory.sqlite3OsClose out.file io = some (out.memory, out.file)
  same : m.Same out.memory

/-- However an open fails, the block and the parent's file are given back and
the list is as it was, but the handle is left with its methods set. -/
theorem failed_open_leaves_methods {disk : Disk} {calls : List ListCall}
    (hrun : Run next Allowed (start disk) calls s) {p : FsFile} {zName : Name} {flags : Nat}
    {malloc : Option Nat} {methods : Bool} {io : Outcomes} {out : Memory.Opening}
    (hfresh : ∀ a, malloc = some a → a ∉ s.memory.blocks)
    (hopen : s.memory.fsOpen s.disk p zName flags malloc methods io = some out)
    (hfail : out.rc ≠ .ok) :
    ¬LeavesNothing s.memory out ∧ s.memory.Same out.memory ∧ out.file.pMethods = true := by
  obtain ⟨v, hs⟩ := consistent_run hrun
  have hleft : s.memory.Same out.memory ∧ out.file.pMethods = true := by
    rcases hs.represents.fsOpen_cases s.disk p zName flags methods io hfresh with
      ⟨a, -, heq⟩ | ⟨-, ⟨-, heq⟩ | ⟨-, -, heq⟩ | ⟨-, -, a, m', -, heq, -⟩ |
        ⟨-, -, a, m', -, heq, hsame⟩⟩
    · obtain rfl := Option.some.inj (hopen.symm.trans heq)
      exact absurd rfl hfail
    · cases hopen.symm.trans heq
    · obtain rfl := Option.some.inj (hopen.symm.trans heq)
      exact ⟨Memory.Same.refl _, rfl⟩
    · obtain rfl := Option.some.inj (hopen.symm.trans heq)
      exact absurd rfl hfail
    · obtain rfl := Option.some.inj (hopen.symm.trans heq)
      exact ⟨hsame, rfl⟩
  refine ⟨fun hnothing => ?_, hleft⟩
  have hset := hnothing.pMethods
  rw [hleft.2] at hset
  cases hset

/-- An open of the database `"db"` by a process that has nothing open. -/
def firstOpen (malloc : Option Nat) : Option Memory.Opening :=
  Memory.init.fsOpen (fun _ => .blank) ⟨false, .database, 0⟩ [100, 98] SQLITE_OPEN_MAIN_DB malloc
    false carriedOut

theorem failed_open_leaves_methods_nomem :
    ∃ out, firstOpen Option.none = some out ∧ ¬LeavesNothing .init out := by
  have hrc : (firstOpen Option.none).map (fun out => out.rc) = some .nomem := by decide +kernel
  obtain ⟨out, hopen, hnomem⟩ := Option.map_eq_some_iff.mp hrc
  refine ⟨out, hopen, ?_⟩
  have hrun : Run next Allowed (start fun _ => .blank) [] (start fun _ => .blank) := .nil _
  apply (failed_open_leaves_methods hrun nofun hopen ?_).1
  rw [hnomem]
  exact nofun

/-- Without memory the handle still has its methods, and closing it goes
through a record that is not there. -/
theorem failed_open_closed : ∃ out, firstOpen Option.none = some out ∧ out.rc = .nomem ∧
    out.file.pMethods = true ∧ out.memory.sqlite3OsClose out.file carriedOut = none := by
  refine ⟨_, rfl, rfl, rfl, ?_⟩
  decide +kernel

end OpenList

end SqliteFs
