import SqliteFs.NList

/-!
The functions of the singly-linked list. They offer what those of the
doubly-linked list do, and where the others follow `prev` these walk from the
start and keep the node that they have passed last.
-/

namespace SqliteFs

open Lib Lib.Mem Lib.ListNode

section

variable {δ : Type} [DecidableEq δ] [Zero δ] (al : Allocator (NSlist δ))

def nSlistAppend (list : Ptr) (x : δ) : Mem (NSlist δ) Ptr := do
  let newList ← malloc al
  store newList fun node => { node with data := x }
  store newList fun node => { node with next := none }
  if list ≠ none then
    let last ← nSlistLast list
    store last fun node => { node with next := newList }
    return list
  else return newList

def nSlistPrepend (list : Ptr) (x : δ) : Mem (NSlist δ) Ptr := do
  let newList ← malloc al
  store newList fun node => { node with data := x }
  store newList fun node => { node with next := list }
  return newList

/-- `position` counts down, and the walk stops behind the last node. -/
def nSlistInsertLoop : Nat → Ptr → Ptr → Mem (NSlist δ) Ptr
  | 0, prevList, _ => return prevList
  | position + 1, prevList, tmpList =>
    if tmpList = none then return prevList
    else do
      let tmp ← load tmpList
      nSlistInsertLoop position tmpList tmp.next

def nSlistInsert (list : Ptr) (x : δ) (position : Int32) : Mem (NSlist δ) Ptr := do
  if position < 0 then nSlistAppend al list x
  else if position = 0 then nSlistPrepend al list x
  else
    let newList ← malloc al
    store newList fun node => { node with data := x }
    if list = none then
      store newList fun node => { node with next := none }
      return newList
    else
      let prevList ← nSlistInsertLoop position.toNatClampNeg none list
      let prev ← load prevList
      store newList fun node => { node with next := prev.next }
      store prevList fun node => { node with next := newList }
      return list

/-- The node in front of the sibling, or the last one. -/
def nSlistBeforeLoop (sibling : Ptr) : Nat → Ptr → Ptr → Mem (NSlist δ) Ptr
  | 0, _, _ => failure
  | fuel + 1, last, node =>
    if node = none then return last
    else if node = sibling then return last
    else do
      let next := (← load node).next
      nSlistBeforeLoop sibling fuel node next

def nSlistInsertBefore (slist sibling : Ptr) (x : δ) : Mem (NSlist δ) Ptr := do
  if slist = none then
    let slist ← malloc al
    store slist fun node => { node with data := x }
    store slist fun node => { node with next := none }
    return slist
  else
    let fuel ← blocks
    let last ← nSlistBeforeLoop sibling fuel none slist
    if last = none then
      let new ← malloc al
      store new fun node => { node with data := x }
      store new fun node => { node with next := slist }
      return new
    else
      let new ← malloc al
      store new fun node => { node with data := x }
      let next := (← load last).next
      store new fun node => { node with next := next }
      store last fun node => { node with next := new }
      return slist

def nSlistConcat (list1 list2 : Ptr) : Mem (NSlist δ) Ptr := do
  if list2 ≠ none then
    if list1 ≠ none then
      let last ← nSlistLast list1
      store last fun node => { node with next := list2 }
      return list1
    else return list2
  else return list1

def nSlistRemoveLoop (list : Ptr) (x : δ) : Nat → Ptr → Ptr → Mem (NSlist δ) Ptr
  | 0, _, _ => failure
  | fuel + 1, prev, tmp =>
    if tmp = none then return list
    else do
      let node ← load tmp
      if node.data = x then
        if prev ≠ none then
          store prev fun prev => { prev with next := node.next }
        free tmp
        return if prev ≠ none then list else node.next
      else nSlistRemoveLoop list x fuel tmp node.next

def nSlistRemove (list : Ptr) (x : δ) : Mem (NSlist δ) Ptr := do
  let fuel ← blocks
  nSlistRemoveLoop list x fuel none list

def nSlistRemoveAllLoop (x : δ) : Nat → Ptr → Ptr → Ptr → Mem (NSlist δ) Ptr
  | 0, _, _, _ => failure
  | fuel + 1, list, prev, tmp =>
    if tmp = none then return list
    else do
      let node ← load tmp
      if node.data = x then
        if prev ≠ none then
          store prev fun prev => { prev with next := node.next }
        free tmp
        nSlistRemoveAllLoop x fuel (if prev ≠ none then list else node.next) prev node.next
      else nSlistRemoveAllLoop x fuel list tmp node.next

def nSlistRemoveAll (list : Ptr) (x : δ) : Mem (NSlist δ) Ptr := do
  let fuel ← blocks
  nSlistRemoveAllLoop x fuel list none list

def nSlistUnlinkLoop (list link : Ptr) : Nat → Ptr → Ptr → Mem (NSlist δ) Ptr
  | 0, _, _ => failure
  | fuel + 1, prev, tmp =>
    if tmp = none then return list
    else if tmp = link then do
      let node ← load tmp
      if prev ≠ none then
        store prev fun prev => { prev with next := node.next }
      let rest := (← load tmp).next
      store tmp fun node => { node with next := none }
      return if list = tmp then rest else list
    else do
      let node ← load tmp
      nSlistUnlinkLoop list link fuel tmp node.next

/-- `_n_slist_remove_link`. -/
def nSlistUnlink (list link : Ptr) : Mem (NSlist δ) Ptr := do
  let fuel ← blocks
  nSlistUnlinkLoop list link fuel none list

def nSlistRemoveLink (list link : Ptr) : Mem (NSlist δ) Ptr := nSlistUnlink list link

def nSlistDeleteLink (list link : Ptr) : Mem (NSlist δ) Ptr := do
  let list ← nSlistUnlink list link
  free link
  return list

def nSlistCopyLoop (func : Option (δ → δ → δ)) (userData : δ) :
    Nat → Ptr → Ptr → Mem (NSlist δ) Unit
  | 0, _, _ => failure
  | fuel + 1, last, list =>
    if list = none then store last fun node => { node with next := none }
    else do
      let new ← malloc al
      store last fun node => { node with next := new }
      let node ← load list
      store new fun last => { last with data := copied func userData node.data }
      nSlistCopyLoop func userData fuel new node.next

def nSlistCopyDeep (list : Ptr) (func : Option (δ → δ → δ)) (userData : δ) :
    Mem (NSlist δ) Ptr := do
  if list ≠ none then
    let fuel ← blocks
    let newList ← malloc al
    let node ← load list
    store newList fun new => { new with data := copied func userData node.data }
    nSlistCopyLoop al func userData fuel newList node.next
    return newList
  else return none

def nSlistCopy (list : Ptr) : Mem (NSlist δ) Ptr := nSlistCopyDeep al list none 0

def nSlistReverseLoop : Nat → Ptr → Ptr → Mem (NSlist δ) Ptr
  | 0, _, _ => failure
  | fuel + 1, prev, list =>
    if list = none then return prev
    else do
      let next := (← load list).next
      store list fun node => { node with next := prev }
      nSlistReverseLoop fuel list next

def nSlistReverse (list : Ptr) : Mem (NSlist δ) Ptr := do
  let fuel ← blocks
  nSlistReverseLoop fuel none list

end

end SqliteFs
