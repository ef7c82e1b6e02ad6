import SqliteFs.NList

/-!
The functions of the doubly-linked list. Each takes the start of a list and
returns the possibly changed start; the nodes stay where they are and only their
pointers change. Allocations succeed, and a function fails where it follows the
null pointer or a pointer to a block that is not live.
-/

namespace SqliteFs

open Lib Lib.Mem Lib.ListNode

section

variable {δ : Type} [DecidableEq δ] [Zero δ] (al : Allocator (NDlist δ))

/-- `_n_dlist_alloc0`; `_n_dlist_alloc` is `malloc`, and leaves the node as it is. -/
def nDlistAlloc0 : Mem (NDlist δ) Ptr := do
  let mem ← malloc al
  store mem fun _ => ⟨0, none, none⟩
  return mem

def nDlistAppend (list : Ptr) (x : δ) : Mem (NDlist δ) Ptr := do
  let newList ← malloc al
  store newList fun node => { node with data := x }
  store newList fun node => { node with next := none }
  if list ≠ none then
    let last ← nDlistLast list
    store last fun node => { node with next := newList }
    store newList fun node => { node with prev := last }
    return list
  else
    store newList fun node => { node with prev := none }
    return newList

def nDlistPrepend (list : Ptr) (x : δ) : Mem (NDlist δ) Ptr := do
  let newList ← malloc al
  store newList fun node => { node with data := x }
  store newList fun node => { node with next := list }
  if list ≠ none then
    let first ← load list
    store newList fun node => { node with prev := first.prev }
    if first.prev ≠ none then
      store first.prev fun node => { node with next := newList }
    store list fun node => { node with prev := newList }
  else
    store newList fun node => { node with prev := none }
  return newList

def nDlistInsert (list : Ptr) (x : δ) (position : Int32) : Mem (NDlist δ) Ptr := do
  if position < 0 then nDlistAppend al list x
  else if position = 0 then nDlistPrepend al list x
  else
    let tmpList ← nDlistNth list position.toUInt32
    if tmpList = none then nDlistAppend al list x
    else
      let newList ← malloc al
      store newList fun node => { node with data := x }
      let tmp ← load tmpList
      store newList fun node => { node with prev := tmp.prev }
      store tmp.prev fun node => { node with next := newList }
      store newList fun node => { node with next := tmpList }
      store tmpList fun node => { node with prev := newList }
      return list

def nDlistInsertBefore (list sibling : Ptr) (x : δ) : Mem (NDlist δ) Ptr := do
  if list = none then
    let list ← nDlistAlloc0 al
    store list fun node => { node with data := x }
    return list
  else if sibling ≠ none then
    let new ← malloc al
    store new fun node => { node with data := x }
    let prev := (← load sibling).prev
    store new fun node => { node with prev := prev }
    store new fun node => { node with next := sibling }
    store sibling fun node => { node with prev := new }
    if prev ≠ none then
      store prev fun node => { node with next := new }
      return list
    else return new
  else
    let fuel ← blocks
    let last ← lastLoop fuel list
    let new ← malloc al
    store last fun node => { node with next := new }
    store new fun node => { node with data := x }
    store new fun node => { node with prev := last }
    store new fun node => { node with next := none }
    return list

def nDlistConcat (list1 list2 : Ptr) : Mem (NDlist δ) Ptr := do
  if list2 ≠ none then
    let tmpList ← nDlistLast list1
    if tmpList ≠ none then
      store tmpList fun node => { node with next := list2 }
      store list2 fun node => { node with prev := tmpList }
      return list1
    else
      store list2 fun node => { node with prev := tmpList }
      return list2
  else return list1

/-- `_n_dlist_remove_link`; what it prints of a corrupted list is left out. -/
def nDlistUnlink (list link : Ptr) : Mem (NDlist δ) Ptr := do
  if link = none then return list
  else
    let node ← load link
    if node.prev ≠ none then
      let prev ← load node.prev
      if prev.next = link then
        store node.prev fun prev => { prev with next := node.next }
    let node ← load link
    if node.next ≠ none then
      let next ← load node.next
      if next.prev = link then
        store node.next fun next => { next with prev := node.prev }
    let rest := (← load link).next
    store link fun node => { node with next := none }
    store link fun node => { node with prev := none }
    return if link = list then rest else list

def nDlistRemoveLoop (list : Ptr) (x : δ) : Nat → Ptr → Mem (NDlist δ) Ptr
  | 0, _ => failure
  | fuel + 1, tmp =>
    if tmp = none then return list
    else do
      let node ← load tmp
      if node.data ≠ x then nDlistRemoveLoop list x fuel node.next
      else
        let list ← nDlistUnlink list tmp
        free tmp
        return list

def nDlistRemove (list : Ptr) (x : δ) : Mem (NDlist δ) Ptr := do
  let fuel ← blocks
  nDlistRemoveLoop list x fuel list

def nDlistRemoveAllLoop (x : δ) : Nat → Ptr → Ptr → Mem (NDlist δ) Ptr
  | 0, _, _ => failure
  | fuel + 1, list, tmp =>
    if tmp = none then return list
    else do
      let node ← load tmp
      if node.data ≠ x then nDlistRemoveAllLoop x fuel list node.next
      else
        if node.prev ≠ none then
          store node.prev fun prev => { prev with next := node.next }
        if node.next ≠ none then
          let prev := (← load tmp).prev
          store node.next fun next => { next with prev := prev }
        free tmp
        nDlistRemoveAllLoop x fuel (if node.prev ≠ none then list else node.next) node.next

def nDlistRemoveAll (list : Ptr) (x : δ) : Mem (NDlist δ) Ptr := do
  let fuel ← blocks
  nDlistRemoveAllLoop x fuel list list

def nDlistRemoveLink (list llink : Ptr) : Mem (NDlist δ) Ptr := nDlistUnlink list llink

def nDlistDeleteLink (list link : Ptr) : Mem (NDlist δ) Ptr := do
  let list ← nDlistUnlink list link
  free link
  return list

def nDlistReverseLoop : Nat → Ptr → Ptr → Mem (NDlist δ) Ptr
  | 0, _, _ => failure
  | fuel + 1, last, list =>
    if list = none then return last
    else do
      let node ← load list
      store list fun last => { last with next := node.prev }
      store list fun last => { last with prev := node.next }
      nDlistReverseLoop fuel list node.next

def nDlistReverse (list : Ptr) : Mem (NDlist δ) Ptr := do
  let fuel ← blocks
  nDlistReverseLoop fuel none list

def nDlistCopyLoop (func : Option (δ → δ → δ)) (userData : δ) :
    Nat → Ptr → Ptr → Mem (NDlist δ) Unit
  | 0, _, _ => failure
  | fuel + 1, last, list =>
    if list = none then store last fun node => { node with next := none }
    else do
      let new ← malloc al
      store last fun node => { node with next := new }
      store new fun node => { node with prev := last }
      let node ← load list
      store new fun last => { last with data := copied func userData node.data }
      nDlistCopyLoop func userData fuel new node.next

def nDlistCopyDeep (list : Ptr) (func : Option (δ → δ → δ)) (userData : δ) :
    Mem (NDlist δ) Ptr := do
  if list ≠ none then
    let fuel ← blocks
    let newList ← malloc al
    let node ← load list
    store newList fun new => { new with data := copied func userData node.data }
    store newList fun new => { new with prev := none }
    nDlistCopyLoop al func userData fuel newList node.next
    return newList
  else return none

def nDlistCopy (list : Ptr) : Mem (NDlist δ) Ptr := nDlistCopyDeep al list none 0

end

end SqliteFs
