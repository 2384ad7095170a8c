import ServiceRuntime.Storage.KeyedTable

/-!
# Go's Linked List

`container/list`: a list whose elements have an identity, so that a pointer to an element stays
good while the list around it changes. A pointer is the address of the element, a number that
is used once. Addresses of the elements of a list are different, and below the next free one.

As in the package, an operation on an element that is not in the list does nothing.
-/

namespace ServiceRuntime.GoList

open Storage

universe u

structure Element (α : Type u) where
  addr : Nat
  value : α

/-- `list.List`. -/
structure LinkedList (α : Type u) where
  table : KeyedTable (Element α) Element.addr
  /-- The next free address. -/
  fresh : Nat
  below : ∀ e ∈ table.rows, e.addr < fresh

namespace LinkedList

variable {α : Type u}

abbrev elems (l : LinkedList α) : List (Element α) := l.table.rows

def new : LinkedList α := ⟨.empty, 0, fun _ h => absurd h List.not_mem_nil⟩

def len (l : LinkedList α) : Nat := l.elems.length

def front (l : LinkedList α) : Option (Element α) := l.elems.head?

def back (l : LinkedList α) : Option (Element α) := l.elems.getLast?

def find (l : LinkedList α) (addr : Nat) : Option (Element α) := l.table.find addr

def next (l : LinkedList α) (addr : Nat) : Option (Element α) :=
  (l.elems.dropWhile fun e => e.addr ≠ addr).tail.head?

/-- `PushFront`, with the address of the new element. -/
def pushFront (l : LinkedList α) (value : α) : LinkedList α × Nat :=
  (⟨l.table.putFront ⟨l.fresh, value⟩, l.fresh + 1, by
    intro e he
    rcases KeyedTable.mem_putFront.mp he with rfl | ⟨he, -⟩
    · exact Nat.lt_succ_self _
    · exact Nat.lt_succ_of_lt (l.below e he)⟩, l.fresh)

def moveToFront (l : LinkedList α) (addr : Nat) : LinkedList α :=
  match h : l.find addr with
  | none => l
  | some e => ⟨l.table.putFront e, l.fresh, by
    intro x hx
    rcases KeyedTable.mem_putFront.mp hx with rfl | ⟨hx, -⟩
    · exact l.below x (KeyedTable.find_eq_some_iff.mp h).1
    · exact l.below x hx⟩

def remove (l : LinkedList α) (addr : Nat) : LinkedList α where
  table := l.table.keepWhere fun e => e.addr ≠ addr
  fresh := l.fresh
  below := fun e he => l.below e (KeyedTable.mem_keepWhere.mp he).1

/-- The assignment `e.Value = value`. -/
def setValue (l : LinkedList α) (addr : Nat) (value : α) : LinkedList α where
  table := l.table.update addr (fun e => ⟨e.addr, value⟩) fun _ => rfl
  fresh := l.fresh
  below := by
    intro e he
    rcases KeyedTable.mem_update he with ⟨x, hx, -, rfl⟩ | ⟨he, -⟩
    · exact l.below x hx
    · exact l.below e he

/-! ## The elements after an operation -/

theorem elems_pushFront (l : LinkedList α) (value : α) :
    (l.pushFront value).1.elems = ⟨l.fresh, value⟩ :: l.elems := by
  refine congrArg (List.cons _) (List.filter_eq_self.mpr fun e he => ?_)
  simpa using Nat.ne_of_lt (l.below e he)

variable {l : LinkedList α} {e : Element α}

theorem elems_moveToFront (he : e ∈ l.elems) :
    (l.moveToFront e.addr).elems = e :: l.elems.filter fun x => x.addr ≠ e.addr := by
  have hfind : l.find e.addr = some e := KeyedTable.find_eq_some_iff.mpr ⟨he, rfl⟩
  unfold moveToFront
  split
  · rename_i hnone
    rw [hnone] at hfind
    cases hfind
  · rename_i x hsome
    rw [hsome, Option.some.injEq] at hfind
    subst hfind
    rfl

theorem elems_setValue (l : LinkedList α) (addr : Nat) (value : α) :
    (l.setValue addr value).elems =
      l.elems.map fun e => if e.addr = addr then ⟨e.addr, value⟩ else e := rfl

theorem elems_setValue_moveToFront (he : e ∈ l.elems) (value : α) :
    ((l.setValue e.addr value).moveToFront e.addr).elems =
      ⟨e.addr, value⟩ :: l.elems.filter fun x => x.addr ≠ e.addr := by
  have hmem : (⟨e.addr, value⟩ : Element α) ∈ (l.setValue e.addr value).elems := by
    rw [elems_setValue]
    exact List.mem_map.mpr ⟨e, he, if_pos rfl⟩
  rw [elems_moveToFront hmem, elems_setValue]
  refine congrArg (List.cons _) ?_
  -- the new value is only in the element that is filtered out
  generalize l.elems = es
  induction es with
  | nil => rfl
  | cons x es ih =>
    by_cases hx : x.addr = e.addr
    · simpa [hx] using ih
    · simpa [hx] using ih

theorem next_of_elems {before after : List (Element α)} (h : l.elems = before ++ e :: after) :
    l.next e.addr = after.head? := by
  have hother : ∀ x ∈ before, x.addr ≠ e.addr := by
    have hunique := l.table.unique
    rw [show l.table.rows = before ++ e :: after from h, List.map_append, List.map_cons,
      List.nodup_append] at hunique
    intro x hx
    exact hunique.2.2 _ (List.mem_map_of_mem hx) _ List.mem_cons_self
  have hdrop : (before ++ e :: after).dropWhile (fun x => x.addr ≠ e.addr) = e :: after := by
    rw [List.dropWhile_append_of_pos fun x hx => by simpa using hother x hx]
    exact List.dropWhile_cons_of_neg (by simp)
  rw [next, h, hdrop, List.tail_cons]

end LinkedList

end ServiceRuntime.GoList
