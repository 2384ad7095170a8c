import ServiceRuntime.GoList
import ServiceRuntime.Storage.RecencyList

/-!
# The LRU Cache of the Client

`lruCache` keeps its entries twice: in a linked list, most recently used first, and in a map from
keys to elements of the list. `Get`, `Put`, `Delete` and `DeleteFunc` update the two one after
the other.

The model keeps both, with pointers as addresses. `Represents` ties them to a recency list, and each
operation is shown to do on the two structures what the operation of that name does on the
recency list.
-/

namespace ServiceRuntime.Identity

open GoList Storage

universe u v

/-! ## The cache -/

structure LruEntry (K : Type u) (V : Type v) where
  key : K
  value : V

/-- `lruCache`. The list holds values of type `any`: `none` is one that is not an entry. -/
structure LruCache (K : Type u) (V : Type v) where
  maxSize : Int
  items : K → Option Nat
  order : LinkedList (Option (LruEntry K V))

namespace LruCache

variable {K : Type u} {V : Type v}

def new (maxSize : Int) : LruCache K V := ⟨maxSize, fun _ => none, .new⟩

def len (c : LruCache K V) : Nat := c.order.len

/-- `elem.Value.(*lruEntry[K, V])`. -/
def entryAt (c : LruCache K V) (addr : Nat) : Option (LruEntry K V) :=
  (c.order.find addr).bind Element.value

variable [DecidableEq K]

def get (c : LruCache K V) (key : K) : LruCache K V × Option V :=
  match c.items key with
  | none => (c, none)
  | some addr =>
    let c := { c with order := c.order.moveToFront addr }
    match c.entryAt addr with
    | none => (c, none)
    | some entry => (c, some entry.value)

/-- The end of `Put`: drop the element at the back. -/
def evictBack (c : LruCache K V) : LruCache K V :=
  match c.order.back with
  | none => c
  | some back =>
    let items :=
      match back.value with
      | none => c.items
      | some evicted => Function.update c.items evicted.key none
    { c with items := items, order := c.order.remove back.addr }

def put (c : LruCache K V) (key : K) (value : V) : LruCache K V :=
  match c.items key with
  | some addr =>
    let entry :=
      match c.entryAt addr with
      | none => ⟨key, value⟩
      | some entry => { entry with value := value }
    { c with order := (c.order.setValue addr (some entry)).moveToFront addr }
  | none =>
    let (order, addr) := c.order.pushFront (some ⟨key, value⟩)
    let c := { c with order := order, items := Function.update c.items key (some addr) }
    if c.maxSize < c.order.len then c.evictBack else c

def delete (c : LruCache K V) (key : K) : LruCache K V :=
  match c.items key with
  | none => c
  | some addr =>
    { c with order := c.order.remove addr, items := Function.update c.items key none }

/-- The loop of `DeleteFunc`, at the element `elem`. -/
def deleteLoop (fn : K → V → Bool) : Nat → Option Nat → LruCache K V → LruCache K V
  | 0, _, c => c
  | _ + 1, none, c => c
  | fuel + 1, some elem, c =>
    -- `next` is read before the element is removed
    let next := (c.order.next elem).map Element.addr
    match c.entryAt elem with
    | none => deleteLoop fn fuel next c
    | some entry =>
      if fn entry.key entry.value then
        deleteLoop fn fuel next
          { c with
            order := c.order.remove elem
            items := Function.update c.items entry.key none }
      else deleteLoop fn fuel next c

def deleteFunc (c : LruCache K V) (fn : K → V → Bool) : LruCache K V :=
  deleteLoop fn c.order.len (c.order.front.map Element.addr) c

/-- One operation, and what a `Get` returns. -/
def apply (c : LruCache K V) : CacheOp K V → LruCache K V × Option V
  | .get key => c.get key
  | .put key value => (c.put key value, none)
  | .delete key => (c.delete key, none)
  | .deleteFunc fn => (c.deleteFunc fn, none)

def run (c : LruCache K V) : List (CacheOp K V) → LruCache K V × List (Option V)
  | [] => (c, [])
  | op :: ops =>
    let (c', out) := c.apply op
    let (c'', outs) := c'.run ops
    (c'', out :: outs)

end LruCache

/-! ## Cells -/

/-- An element of the list together with the map entry that points to it. -/
structure Cell (K : Type u) (V : Type v) where
  addr : Nat
  key : K
  value : V

namespace Cell

variable {K : Type u} {V : Type v}

def element (cell : Cell K V) : Element (Option (LruEntry K V)) :=
  ⟨cell.addr, some ⟨cell.key, cell.value⟩⟩

def pair (cell : Cell K V) : K × V := (cell.key, cell.value)

end Cell

/-- The list and the map consist of these cells, in this order. -/
structure LruCache.Holds {K : Type u} {V : Type v} (c : LruCache K V) (cells : List (Cell K V)) :
    Prop where
  elems : c.order.elems = cells.map Cell.element
  keys : (cells.map Cell.key).Nodup
  items : ∀ key addr, c.items key = some addr ↔ ∃ cell ∈ cells, cell.key = key ∧ cell.addr = addr

namespace LruCache.Holds

variable {K : Type u} {V : Type v} {c : LruCache K V} {cells before after : List (Cell K V)}
  {cell : Cell K V}

theorem addrs (h : c.Holds cells) : (cells.map Cell.addr).Nodup := by
  have hunique := c.order.table.unique
  rw [show c.order.table.rows = _ from h.elems, List.map_map] at hunique
  exact hunique

theorem split (h : c.Holds cells) {key : K} {addr : Nat} (hitem : c.items key = some addr) :
    ∃ before cell after, cells = before ++ cell :: after ∧ cell.key = key ∧ cell.addr = addr := by
  obtain ⟨cell, hmem, hkey, haddr⟩ := (h.items key addr).mp hitem
  obtain ⟨before, after, rfl⟩ := List.append_of_mem hmem
  exact ⟨before, cell, after, rfl, hkey, haddr⟩

theorem items_eq_none (h : c.Holds cells) {key : K} (hitem : c.items key = none) :
    ∀ cell ∈ cells, cell.key ≠ key := by
  intro cell hmem hkey
  rw [(h.items key cell.addr).mpr ⟨cell, hmem, hkey, rfl⟩] at hitem
  cases hitem

theorem element_mem (h : c.Holds cells) (hmem : cell ∈ cells) : cell.element ∈ c.order.elems := by
  rw [h.elems]
  exact List.mem_map_of_mem hmem

theorem entryAt (h : c.Holds cells) (hmem : cell ∈ cells) :
    c.entryAt cell.addr = some ⟨cell.key, cell.value⟩ := by
  have hfind : c.order.find cell.addr = some cell.element :=
    KeyedTable.find_eq_some_iff.mpr ⟨h.element_mem hmem, rfl⟩
  rw [LruCache.entryAt, hfind]
  rfl

theorem elems_filter (h : c.Holds (before ++ cell :: after)) :
    (c.order.elems.filter fun e => e.addr ≠ cell.addr) = (before ++ after).map Cell.element := by
  have hfilter : (before ++ cell :: after).filter (fun x => x.addr ≠ cell.addr) = before ++ after :=
    KeyedTable.filter_key_ne h.addrs
  rw [h.elems, List.filter_map, ← hfilter]
  rfl

theorem keys_cons (h : c.Holds (before ++ cell :: after)) :
    ((cell :: (before ++ after)).map Cell.key).Nodup :=
  (List.perm_middle.map Cell.key).nodup_iff.mp h.keys

theorem key_ne (h : c.Holds (before ++ cell :: after)) {x : Cell K V} (hx : x ∈ before ++ after) :
    x.key ≠ cell.key := by
  intro heq
  have hnodup := h.keys_cons
  rw [List.map_cons, List.nodup_cons] at hnodup
  exact hnodup.1 (heq ▸ List.mem_map_of_mem hx)

theorem moveFront (h : c.Holds (before ++ cell :: after)) (value : V)
    {order : LinkedList (Option (LruEntry K V))}
    (horder : order.elems = { cell with value := value }.element ::
      c.order.elems.filter fun e => e.addr ≠ cell.addr) :
    LruCache.Holds { c with order := order } ({ cell with value := value } :: (before ++ after)) := by
  refine ⟨?_, h.keys_cons, fun key addr => ?_⟩
  · rw [horder, h.elems_filter, List.map_cons]
  · rw [h.items key addr]
    constructor
    · rintro ⟨x, hx, hkey, haddr⟩
      rcases List.mem_cons.mp (List.perm_middle.mem_iff.mp hx) with rfl | hx
      · exact ⟨_, List.mem_cons_self, hkey, haddr⟩
      · exact ⟨x, List.mem_cons_of_mem _ hx, hkey, haddr⟩
    · rintro ⟨x, hx, hkey, haddr⟩
      rcases List.mem_cons.mp hx with rfl | hx
      · exact ⟨cell, List.mem_append_right _ List.mem_cons_self, hkey, haddr⟩
      · exact ⟨x, List.perm_middle.mem_iff.mpr (List.mem_cons_of_mem _ hx), hkey, haddr⟩

variable [DecidableEq K]

/-- **A cell is taken out**, of the list and of the map. -/
theorem remove (h : c.Holds (before ++ cell :: after)) :
    LruCache.Holds
      { c with order := c.order.remove cell.addr, items := Function.update c.items cell.key none }
      (before ++ after) := by
  have hkeys := h.keys_cons
  rw [List.map_cons, List.nodup_cons] at hkeys
  refine ⟨?_, hkeys.2, fun key addr => ?_⟩
  · rw [← h.elems_filter]
    rfl
  · change Function.update c.items cell.key none key = some addr ↔ _
    by_cases hkey : key = cell.key
    -- the removed key: no other cell has it
    · subst hkey
      rw [Function.update_self]
      constructor
      · exact fun hnone => by cases hnone
      · rintro ⟨x, hx, hkey, -⟩
        exact absurd hkey (h.key_ne hx)
    · rw [Function.update_of_ne hkey, h.items key addr]
      constructor
      · rintro ⟨x, hx, hxkey, haddr⟩
        rcases List.mem_cons.mp (List.perm_middle.mem_iff.mp hx) with rfl | hx
        · exact absurd hxkey.symm hkey
        · exact ⟨x, hx, hxkey, haddr⟩
      · rintro ⟨x, hx, hxkey, haddr⟩
        exact ⟨x, List.perm_middle.mem_iff.mpr (List.mem_cons_of_mem _ hx), hxkey, haddr⟩

theorem pushFront (h : c.Holds cells) {key : K} (hnew : ∀ cell ∈ cells, cell.key ≠ key) (value : V) :
    LruCache.Holds
      { c with
        order := (c.order.pushFront (some ⟨key, value⟩)).1
        items := Function.update c.items key (some c.order.fresh) }
      (⟨c.order.fresh, key, value⟩ :: cells) := by
  refine ⟨?_, ?_, fun k addr => ?_⟩
  · rw [LinkedList.elems_pushFront, h.elems]
    rfl
  · rw [List.map_cons, List.nodup_cons]
    refine ⟨fun hmem => ?_, h.keys⟩
    obtain ⟨cell, hcell, hkey⟩ := List.mem_map.mp hmem
    exact hnew cell hcell hkey
  · change Function.update c.items key (some c.order.fresh) k = some addr ↔ _
    by_cases hk : k = key
    -- the new key: only the new cell has it
    · subst hk
      rw [Function.update_self, Option.some.injEq]
      constructor
      · rintro rfl
        exact ⟨_, List.mem_cons_self, rfl, rfl⟩
      · rintro ⟨x, hx, hkey, haddr⟩
        rcases List.mem_cons.mp hx with rfl | hx
        · exact haddr
        · exact absurd hkey (hnew x hx)
    · rw [Function.update_of_ne hk, h.items k addr]
      constructor
      · rintro ⟨x, hx, hkey, haddr⟩
        exact ⟨x, List.mem_cons_of_mem _ hx, hkey, haddr⟩
      · rintro ⟨x, hx, hkey, haddr⟩
        rcases List.mem_cons.mp hx with rfl | hx
        · exact absurd hkey.symm hk
        · exact ⟨x, hx, hkey, haddr⟩

theorem evictBack (h : c.Holds (cells ++ [cell])) : c.evictBack.Holds cells := by
  have hback : c.order.back = some cell.element := by
    rw [LinkedList.back, h.elems, List.map_append, List.map_singleton, List.getLast?_concat]
  have hremoved := h.remove
  rw [List.append_nil] at hremoved
  rw [LruCache.evictBack, hback]
  exact hremoved

/-- **The loop of `DeleteFunc`** takes the matching cells out of those that are still to come. -/
theorem deleteLoop (fn : K → V → Bool) {todo : List (Cell K V)} (h : c.Holds (before ++ todo)) :
    (LruCache.deleteLoop fn todo.length (todo.head?.map Cell.addr) c).Holds
      (before ++ todo.filter fun cell => !fn cell.key cell.value) := by
  induction todo generalizing c before with
  | nil => exact h
  | cons cell todo ih =>
    -- the loop reads the next element before it removes this one
    have hnext : (c.order.next cell.addr).map Element.addr = todo.head?.map Cell.addr := by
      have helems : c.order.elems = before.map Cell.element ++ cell.element :: todo.map Cell.element := by
        rw [h.elems, List.map_append, List.map_cons]
      have hnext := LinkedList.next_of_elems helems
      rw [show cell.addr = cell.element.addr from rfl, hnext, List.head?_map, Option.map_map]
      rfl
    have hentry : c.entryAt cell.addr = some ⟨cell.key, cell.value⟩ :=
      h.entryAt (List.mem_append_right _ List.mem_cons_self)
    change (LruCache.deleteLoop fn (todo.length + 1) (some cell.addr) c).Holds _
    rw [LruCache.deleteLoop, hentry, hnext]
    by_cases hfn : fn cell.key cell.value = true
    · rw [List.filter_cons_of_neg (by simpa using hfn)]
      simp only [if_pos hfn]
      exact ih h.remove
    · rw [List.filter_cons_of_pos (by simpa using hfn), List.append_cons]
      simp only [if_neg hfn]
      exact ih (List.append_cons before cell todo ▸ h)

end LruCache.Holds

/-! ## Refinement -/

section

variable {K : Type u} {V : Type v} [DecidableEq K] {bound : Nat}

/-- The cache is this recency list. -/
structure LruCache.Represents (c : LruCache K V) (l : RecencyList K V bound) : Prop where
  maxSize : c.maxSize = bound
  cells : ∃ cells, c.Holds cells ∧ l.entries = cells.map Cell.pair

namespace LruCache

variable {c : LruCache K V} {l : RecencyList K V bound}

omit [DecidableEq K] in
theorem represents_new {maxSize : Int} (hmax : maxSize = bound) :
    (new maxSize : LruCache K V).Represents (RecencyList.empty : RecencyList K V bound) := by
  refine ⟨hmax, [], ⟨rfl, List.nodup_nil, fun key addr => ⟨fun h => ?_, ?_⟩⟩, rfl⟩
  · cases h
  · rintro ⟨cell, hmem, -⟩
    cases hmem

omit [DecidableEq K] in
theorem Represents.len_eq (h : c.Represents l) : c.len = l.entries.length := by
  obtain ⟨-, cells, hcells, hentries⟩ := h
  rw [hentries, len, LinkedList.len, hcells.elems, List.length_map, List.length_map]

theorem Represents.items_eq_none_iff (h : c.Represents l) (key : K) :
    c.items key = none ↔ l.lookup key = none := by
  obtain ⟨-, cells, hcells, hentries⟩ := h
  rw [RecencyList.lookup_eq_none_iff, hentries, List.forall_mem_map]
  constructor
  · exact fun hnone => hcells.items_eq_none hnone
  · intro hall
    cases hitem : c.items key with
    | none => rfl
    | some addr =>
      obtain ⟨cell, hmem, hkey, -⟩ := (hcells.items key addr).mp hitem
      exact absurd hkey (hall cell hmem)

theorem Holds.entries_filter {before after : List (Cell K V)} {cell : Cell K V}
    (h : c.Holds (before ++ cell :: after)) :
    ((before ++ cell :: after).map Cell.pair).filter (fun p => p.1 ≠ cell.key) =
      (before ++ after).map Cell.pair := by
  have hfilter : (before ++ cell :: after).filter (fun x => x.key ≠ cell.key) = before ++ after :=
    KeyedTable.filter_key_ne h.keys
  rw [List.filter_map, ← hfilter]
  rfl

theorem represents_moveFront {before after : List (Cell K V)} {cell : Cell K V}
    (hmax : c.maxSize = bound) (hcells : c.Holds (before ++ cell :: after))
    (hentries : l.entries = (before ++ cell :: after).map Cell.pair) (value : V)
    {order : LinkedList (Option (LruEntry K V))}
    (horder : order.elems = { cell with value := value }.element ::
      c.order.elems.filter fun e => e.addr ≠ cell.addr) :
    Represents { c with order := order } (l.put cell.key value) := by
  refine ⟨hmax, _, hcells.moveFront value horder, ?_⟩
  have hmem : (cell.key, cell.value) ∈ l.entries := by
    rw [hentries]
    exact List.mem_map.mpr ⟨cell, List.mem_append_right _ List.mem_cons_self, rfl⟩
  rw [RecencyList.put_entries_of_mem hmem, hentries, hcells.entries_filter]
  rfl

/-- **`Get`** uses the entry and returns its value. -/
theorem Represents.get (h : c.Represents l) (key : K) :
    (c.get key).1.Represents (l.get key).1 ∧ (c.get key).2 = (l.get key).2 := by
  cases hitem : c.items key with
  | none =>
    have hlookup := (h.items_eq_none_iff key).mp hitem
    rw [LruCache.get, hitem, RecencyList.get, hlookup]
    exact ⟨h, rfl⟩
  | some addr =>
    obtain ⟨hmax, cells, hcells, hentries⟩ := h
    obtain ⟨before, cell, after, rfl, rfl, rfl⟩ := hcells.split hitem
    have hmem : cell ∈ before ++ cell :: after := List.mem_append_right _ List.mem_cons_self
    have hlookup : l.lookup cell.key = some cell.value := by
      rw [RecencyList.lookup_eq_some_iff, hentries]
      exact List.mem_map_of_mem hmem
    have horder := LinkedList.elems_moveToFront (hcells.element_mem hmem)
    -- using an entry is putting its own value
    have hrep := represents_moveFront hmax hcells hentries cell.value horder
    have hentry : entryAt { c with order := c.order.moveToFront cell.addr } cell.addr =
        some ⟨cell.key, cell.value⟩ :=
      (hcells.moveFront cell.value horder).entryAt List.mem_cons_self
    rw [LruCache.get, hitem, RecencyList.get, hlookup]
    simp only [hentry]
    exact ⟨hrep, trivial⟩

theorem evictBack_maxSize (c : LruCache K V) : c.evictBack.maxSize = c.maxSize := by
  unfold evictBack
  split
  · rfl
  · rfl

/-- **`Put`** puts the entry in front, and the last one goes if there are too many. -/
theorem Represents.put (h : c.Represents l) (key : K) (value : V) :
    (c.put key value).Represents (l.put key value) := by
  cases hitem : c.items key with
  | some addr =>
    -- a known key: its cell gets the value and moves to the front
    obtain ⟨hmax, cells, hcells, hentries⟩ := h
    obtain ⟨before, cell, after, rfl, rfl, rfl⟩ := hcells.split hitem
    have hmem : cell ∈ before ++ cell :: after := List.mem_append_right _ List.mem_cons_self
    rw [LruCache.put, hitem]
    simp only [hcells.entryAt hmem]
    exact represents_moveFront hmax hcells hentries value
      (LinkedList.elems_setValue_moveToFront (hcells.element_mem hmem) (some ⟨cell.key, value⟩))
  | none =>
    have hlookup := (h.items_eq_none_iff key).mp hitem
    obtain ⟨hmax, cells, hcells, hentries⟩ := h
    -- the cache with the new cell in front, before the size is looked at
    let pushed : LruCache K V :=
      { c with
        order := (c.order.pushFront (some ⟨key, value⟩)).1
        items := Function.update c.items key (some c.order.fresh) }
    have hpushed : pushed.Holds (⟨c.order.fresh, key, value⟩ :: cells) :=
      hcells.pushFront (hcells.items_eq_none hitem) value
    have hput : (l.put key value).entries =
        ((⟨c.order.fresh, key, value⟩ :: cells : List (Cell K V)).map Cell.pair).take bound := by
      rw [RecencyList.put_entries_of_lookup_eq_none hlookup, hentries]
      rfl
    have hlen : pushed.order.len = cells.length + 1 := by
      rw [LinkedList.len, hpushed.elems, List.length_map, List.length_cons]
    have hbounded : cells.length ≤ bound := by
      have hlength : l.entries.length ≤ bound := l.bounded
      rwa [hentries, List.length_map] at hlength
    have hcode : c.put key value =
        if pushed.maxSize < pushed.order.len then pushed.evictBack else pushed := by
      rw [LruCache.put, hitem]
      rfl
    rw [hcode]
    split
    -- one too many: the cells without the last one are the first `bound`
    · rename_i hfull
      have hlength : cells.length = bound := by
        rw [hlen, show pushed.maxSize = bound from hmax] at hfull
        omega
      have hsplit := List.dropLast_append_getLast
        (List.cons_ne_nil (⟨c.order.fresh, key, value⟩ : Cell K V) cells)
      refine ⟨(evictBack_maxSize pushed).trans hmax, _, (hsplit.symm ▸ hpushed).evictBack, ?_⟩
      rw [hput, List.dropLast_eq_take, ← List.map_take, List.length_cons, Nat.add_sub_cancel, hlength]
    · rename_i hroom
      refine ⟨hmax, _, hpushed, ?_⟩
      rw [hlen, show pushed.maxSize = bound from hmax] at hroom
      rw [hput, List.take_of_length_le]
      rw [List.length_map, List.length_cons]
      omega

theorem Represents.delete (h : c.Represents l) (key : K) :
    (c.delete key).Represents (l.delete key) := by
  cases hitem : c.items key with
  | none =>
    have hlookup := (h.items_eq_none_iff key).mp hitem
    obtain ⟨hmax, cells, hcells, hentries⟩ := h
    rw [LruCache.delete, hitem]
    refine ⟨hmax, cells, hcells, ?_⟩
    rw [← hentries]
    refine List.filter_eq_self.mpr fun p hp => ?_
    simpa using RecencyList.lookup_eq_none_iff.mp hlookup p hp
  | some addr =>
    obtain ⟨hmax, cells, hcells, hentries⟩ := h
    obtain ⟨before, cell, after, rfl, rfl, rfl⟩ := hcells.split hitem
    rw [LruCache.delete, hitem]
    refine ⟨hmax, before ++ after, hcells.remove, ?_⟩
    rw [← hcells.entries_filter, ← hentries]
    rfl

theorem deleteLoop_maxSize (fn : K → V → Bool) (fuel : Nat) (elem : Option Nat)
    (c : LruCache K V) : (deleteLoop fn fuel elem c).maxSize = c.maxSize := by
  induction fuel generalizing elem c with
  | zero => rfl
  | succ fuel ih =>
    cases elem with
    | none => rfl
    | some elem =>
      rw [deleteLoop]
      split
      · exact ih _ _
      · split
        · exact ih _ _
        · exact ih _ _

/-- **`DeleteFunc`** visits every entry once. -/
theorem Represents.deleteFunc (h : c.Represents l) (fn : K → V → Bool) :
    (c.deleteFunc fn).Represents (l.deleteFunc fn) := by
  obtain ⟨hmax, cells, hcells, hentries⟩ := h
  -- nothing is kept yet and every cell is to come
  have hloop : (deleteLoop fn cells.length (cells.head?.map Cell.addr) c).Holds
      ([] ++ cells.filter fun cell => !fn cell.key cell.value) := Holds.deleteLoop fn hcells
  have hlen : c.order.len = cells.length := by
    rw [LinkedList.len, hcells.elems, List.length_map]
  have hfront : c.order.front.map Element.addr = cells.head?.map Cell.addr := by
    rw [LinkedList.front, hcells.elems, List.head?_map, Option.map_map]
    rfl
  rw [LruCache.deleteFunc, hlen, hfront]
  refine ⟨(deleteLoop_maxSize fn _ _ c).trans hmax, _, hloop, ?_⟩
  change l.entries.filter (fun p => !fn p.1 p.2) = _
  rw [hentries, List.filter_map, List.nil_append]
  rfl

theorem Represents.apply (h : c.Represents l) (op : CacheOp K V) :
    (c.apply op).1.Represents (l.apply op).1 ∧ (c.apply op).2 = (l.apply op).2 := by
  cases op with
  | get key => exact h.get key
  | put key value => exact ⟨h.put key value, rfl⟩
  | delete key => exact ⟨h.delete key, rfl⟩
  | deleteFunc fn => exact ⟨h.deleteFunc fn, rfl⟩

/-- **Simulation**: along every sequence of operations the cache is the recency list, and returns
    what it returns. -/
theorem Represents.run (h : c.Represents l) (ops : List (CacheOp K V)) :
    (c.run ops).1.Represents (l.run ops).1 ∧ (c.run ops).2 = (l.run ops).2 := by
  induction ops generalizing c l with
  | nil => exact ⟨h, rfl⟩
  | cons op ops ih =>
    obtain ⟨hop, hout⟩ := h.apply op
    obtain ⟨hops, houts⟩ := ih hop
    refine ⟨hops, ?_⟩
    change (c.apply op).2 :: ((c.apply op).1.run ops).2 = _
    rw [hout, houts]
    rfl

/-! ## Main theorem -/

omit [DecidableEq K] in
/-- The entries in the list, most recently used first. -/
def contents (c : LruCache K V) : List (K × V) :=
  c.order.elems.filterMap fun e => e.value.map fun entry => (entry.key, entry.value)

/-- The map and the list describe the same keys, one to one. -/
structure OneToOne (c : LruCache K V) : Prop where
  /-- Each entry of the map points at the element that holds its key. -/
  item : ∀ key addr, c.items key = some addr →
    ∃ e ∈ c.order.elems, e.addr = addr ∧ ∃ value, e.value = some ⟨key, value⟩
  /-- Each element holds an entry, and the map has it under its key. -/
  elem : ∀ e ∈ c.order.elems, ∃ entry, e.value = some entry ∧ c.items entry.key = some e.addr
  keys : (c.contents.map Prod.fst).Nodup

omit [DecidableEq K] in
theorem Represents.contents_eq (h : c.Represents l) : c.contents = l.entries := by
  obtain ⟨-, cells, hcells, hentries⟩ := h
  rw [contents, hcells.elems, hentries, List.filterMap_map, ← List.filterMap_eq_map]
  rfl

omit [DecidableEq K] in
theorem Represents.oneToOne (h : c.Represents l) : c.OneToOne := by
  refine ⟨fun key addr hitem => ?_, fun e he => ?_, h.contents_eq ▸ l.table.unique⟩
  · obtain ⟨-, cells, hcells, -⟩ := h
    obtain ⟨cell, hmem, rfl, rfl⟩ := (hcells.items key addr).mp hitem
    exact ⟨cell.element, hcells.element_mem hmem, rfl, cell.value, rfl⟩
  · obtain ⟨-, cells, hcells, -⟩ := h
    rw [hcells.elems] at he
    obtain ⟨cell, hmem, rfl⟩ := List.mem_map.mp he
    exact ⟨_, rfl, (hcells.items _ _).mpr ⟨cell, hmem, rfl, rfl⟩⟩

theorem Represents.lookup_eq_none_iff (h : c.Represents l) (key : K) :
    l.lookup key = none ↔ key ∉ c.contents.map Prod.fst := by
  rw [RecencyList.lookup_eq_none_iff, h.contents_eq, List.mem_map]
  constructor
  · rintro hall ⟨p, hp, rfl⟩
    exact hall p hp rfl
  · exact fun hnot p hp hkey => hnot ⟨p, hp, hkey⟩

def after (maxSize : Int) (ops : List (CacheOp K V)) : LruCache K V × List (Option V) :=
  (new maxSize : LruCache K V).run ops

def reference (maxSize : Int) (ops : List (CacheOp K V)) :
    RecencyList K V maxSize.toNat × List (Option V) :=
  (RecencyList.empty : RecencyList K V maxSize.toNat).run ops

/-- **The cache is a recency list.** After any sequence of operations on a new cache of size at
    least one, the map and the list describe the same keys one to one; there are at most `maxSize`
    entries; the entries, their order and what the operations returned are those of the recency
    list. So `Get` returns the value that was put last, and an entry disappears only if it is
    deleted, if `DeleteFunc` matches it, or as the least recently used one of a full cache when a
    new key is put. -/
theorem lruCache_refines_recencyList {maxSize : Int} (hmax : 1 ≤ maxSize)
    (ops : List (CacheOp K V)) :
    (after maxSize ops).1.OneToOne ∧ ((after maxSize ops).1.len : Int) ≤ maxSize ∧
      (after maxSize ops).1.contents = (reference maxSize ops).1.entries ∧
      (after maxSize ops).2 = (reference maxSize ops).2 ∧
      (∀ key value, ((after maxSize ops).1.get key).2 = some value →
        RecencyList.lastPut key none ops = some value) ∧
      ∀ (op : CacheOp K V) (p : K × V), p ∈ (after maxSize ops).1.contents →
        p.1 ∉ ((after maxSize ops).1.apply op).1.contents.map Prod.fst →
          op = .delete p.1 ∨ (∃ fn, op = .deleteFunc fn ∧ fn p.1 p.2 = true) ∨
            ∃ key value, op = .put key value ∧
              key ∉ (after maxSize ops).1.contents.map Prod.fst ∧
              ((after maxSize ops).1.len : Int) = maxSize ∧
              (after maxSize ops).1.contents.getLast? = some p := by
  have hbound : (maxSize.toNat : Int) = maxSize := Int.toNat_of_nonneg (by omega)
  obtain ⟨hrep, houts⟩ := (represents_new (K := K) (V := V) hbound.symm).run ops
  change (after maxSize ops).1.Represents (reference maxSize ops).1 at hrep
  have hlen := hrep.len_eq
  refine ⟨hrep.oneToOne, ?_, hrep.contents_eq, houts, fun key value hget => ?_,
    fun op p hp hgone => ?_⟩
  · have hlength : (reference maxSize ops).1.entries.length ≤ maxSize.toNat :=
      (reference maxSize ops).1.bounded
    omega
  -- the last two parts are facts about recency lists, carried over
  · rw [(hrep.get key).2, RecencyList.get_snd, RecencyList.lookup_eq_some_iff] at hget
    exact RecencyList.lastPut_of_mem_run RecencyList.empty (fun _ => none) (fun p hp => by cases hp) hget
  · rw [← ((hrep.apply op).1).lookup_eq_none_iff] at hgone
    rw [hrep.contents_eq] at hp ⊢
    rcases RecencyList.departure (by omega) hp hgone with
      hdelete | hmatch | ⟨key, value, hput, hnew, hfull, hlast⟩
    · exact .inl hdelete
    · exact .inr (.inl hmatch)
    · refine .inr (.inr ⟨key, value, hput, ?_, by omega, hlast⟩)
      rw [← hrep.contents_eq]
      exact (hrep.lookup_eq_none_iff key).mp hnew

/-- A cache of size two: `a` is used again before a third key comes, so `b` has to go. -/
def promoted : List (CacheOp String Nat) :=
  [.put "a" 1, .put "b" 2, .get "a", .put "c" 3, .get "b"]

theorem lruCache_refines_of_promoted :
    (after 2 promoted).1.contents = [("c", 3), ("a", 1)] ∧
      (after 2 promoted).2 = [none, none, some 1, none, none] ∧
      (after 2 promoted).1.OneToOne ∧ ((after 2 promoted).1.len : Int) ≤ 2 := by
  obtain ⟨honeToOne, hlen, -⟩ :=
    lruCache_refines_recencyList (show (1 : Int) ≤ 2 by decide) promoted
  exact ⟨by decide, by decide, honeToOne, hlen⟩

end LruCache

/-! ## Well-formed caches

What the rest of the client knows of its caches: the value under a key, and what each operation
makes of it. -/

/-- A cache whose map and list are in step. -/
structure Cache (K : Type u) (V : Type v) [DecidableEq K] where
  lru : LruCache K V
  sound : ∃ (bound : Nat) (l : RecencyList K V bound), lru.Represents l

namespace Cache

/-- `newLRUCache`, with room for something. -/
def new (maxSize : Int) (h : 1 ≤ maxSize) : Cache K V where
  lru := .new maxSize
  sound := ⟨maxSize.toNat, .empty, LruCache.represents_new (by omega)⟩

def get (c : Cache K V) (key : K) : Cache K V × Option V :=
  (⟨(c.lru.get key).1, by
    obtain ⟨bound, l, h⟩ := c.sound
    exact ⟨bound, _, (h.get key).1⟩⟩, (c.lru.get key).2)

def put (c : Cache K V) (key : K) (value : V) : Cache K V where
  lru := c.lru.put key value
  sound := by
    obtain ⟨bound, l, h⟩ := c.sound
    exact ⟨bound, _, h.put key value⟩

def delete (c : Cache K V) (key : K) : Cache K V where
  lru := c.lru.delete key
  sound := by
    obtain ⟨bound, l, h⟩ := c.sound
    exact ⟨bound, _, h.delete key⟩

def deleteFunc (c : Cache K V) (fn : K → V → Bool) : Cache K V where
  lru := c.lru.deleteFunc fn
  sound := by
    obtain ⟨bound, l, h⟩ := c.sound
    exact ⟨bound, _, h.deleteFunc fn⟩

def peek (c : Cache K V) (key : K) : Option V := (c.lru.get key).2

variable {c : Cache K V} {key k : K} {value w : V}

theorem get_snd (c : Cache K V) (key : K) : (c.get key).2 = c.peek key := rfl

theorem peek_eq_some_iff {lru : LruCache K V} {l : RecencyList K V bound} (h : lru.Represents l) :
    (lru.get k).2 = some w ↔ (k, w) ∈ l.entries := by
  rw [(h.get k).2, RecencyList.get_snd, RecencyList.lookup_eq_some_iff]

theorem peek_get (c : Cache K V) (key k : K) : (c.get key).1.peek k = c.peek k := by
  obtain ⟨bound, l, h⟩ := c.sound
  refine Option.ext fun w => ?_
  have hafter : (c.get key).1.peek k = some w ↔ (k, w) ∈ (l.get key).1.entries :=
    peek_eq_some_iff (h.get key).1
  have hbefore : c.peek k = some w ↔ (k, w) ∈ l.entries := peek_eq_some_iff h
  rw [hafter, hbefore, RecencyList.mem_get]

theorem peek_put (h : (c.put key value).peek k = some w) :
    k = key ∧ w = value ∨ k ≠ key ∧ c.peek k = some w := by
  obtain ⟨bound, l, hrep⟩ := c.sound
  have hmem : (k, w) ∈ (l.put key value).entries := (peek_eq_some_iff (hrep.put key value)).mp h
  rcases RecencyList.mem_of_mem_put hmem with heq | ⟨hold, hne⟩
  · rw [Prod.mk.injEq] at heq
    exact .inl heq
  · exact .inr ⟨hne, (peek_eq_some_iff hrep).mpr hold⟩

theorem peek_delete (h : (c.delete key).peek k = some w) : k ≠ key ∧ c.peek k = some w := by
  obtain ⟨bound, l, hrep⟩ := c.sound
  have hmem : (k, w) ∈ (l.delete key).entries := (peek_eq_some_iff (hrep.delete key)).mp h
  obtain ⟨hold, hne⟩ := RecencyList.mem_delete.mp hmem
  exact ⟨hne, (peek_eq_some_iff hrep).mpr hold⟩

theorem peek_deleteFunc {fn : K → V → Bool} (h : (c.deleteFunc fn).peek k = some w) :
    c.peek k = some w := by
  obtain ⟨bound, l, hrep⟩ := c.sound
  have hmem : (k, w) ∈ (l.deleteFunc fn).entries := (peek_eq_some_iff (hrep.deleteFunc fn)).mp h
  exact (peek_eq_some_iff hrep).mpr (RecencyList.mem_deleteFunc.mp hmem).1

end Cache

end

end ServiceRuntime.Identity
