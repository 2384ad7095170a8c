import ServiceRuntime.Storage.KeyedTable

/-!
# Recency Lists

What a bounded cache with least-recently-used replacement is: an association list, most
recently used entry first, cut off at the bound. Keys are unique and the length is within the
bound by construction.

A use of an entry puts it in front. The entry that falls off the end is then the one whose last use
is longest ago.
-/

namespace ServiceRuntime.Storage

universe u v

/-- An association list of at most `bound` entries, most recently used first. -/
structure RecencyList (K : Type u) (V : Type v) (bound : Nat) where
  table : KeyedTable (K × V) Prod.fst
  bounded : table.rows.length ≤ bound

inductive CacheOp (K : Type u) (V : Type v) where
  | get (key : K)
  | put (key : K) (value : V)
  | delete (key : K)
  | deleteFunc (fn : K → V → Bool)

namespace RecencyList

variable {K : Type u} {V : Type v} {bound : Nat}

abbrev entries (l : RecencyList K V bound) : List (K × V) := l.table.rows

def empty : RecencyList K V bound := ⟨.empty, Nat.zero_le _⟩

/-- Delete all entries that satisfy `fn`. -/
def deleteFunc (l : RecencyList K V bound) (fn : K → V → Bool) : RecencyList K V bound where
  table := l.table.keepWhere fun p => !fn p.1 p.2
  bounded := le_trans (List.length_filter_le _ _) l.bounded

variable [DecidableEq K]

/-- The value of a key; looking is not a use. -/
def lookup (l : RecencyList K V bound) (key : K) : Option V := (l.table.find key).map Prod.snd

def put (l : RecencyList K V bound) (key : K) (value : V) : RecencyList K V bound where
  table := (l.table.putFront (key, value)).take bound
  bounded := List.length_take_le _ _

/-- The value of a key, used. -/
def get (l : RecencyList K V bound) (key : K) : RecencyList K V bound × Option V :=
  match l.lookup key with
  | none => (l, none)
  | some value => (l.put key value, some value)

def delete (l : RecencyList K V bound) (key : K) : RecencyList K V bound where
  table := l.table.keepWhere fun p => p.1 ≠ key
  bounded := le_trans (List.length_filter_le _ _) l.bounded

def apply (l : RecencyList K V bound) : CacheOp K V → RecencyList K V bound × Option V
  | .get key => l.get key
  | .put key value => (l.put key value, none)
  | .delete key => (l.delete key, none)
  | .deleteFunc fn => (l.deleteFunc fn, none)

def run (l : RecencyList K V bound) : List (CacheOp K V) → RecencyList K V bound × List (Option V)
  | [] => (l, [])
  | op :: ops =>
    let (l', out) := l.apply op
    let (l'', outs) := l'.run ops
    (l'', out :: outs)

/-! ## Looking after an operation -/

variable {l : RecencyList K V bound} {key : K} {p : K × V}

theorem lookup_eq_some_iff {value : V} : l.lookup key = some value ↔ (key, value) ∈ l.entries := by
  rw [lookup, Option.map_eq_some_iff]
  constructor
  · rintro ⟨⟨k, v⟩, hfind, rfl⟩
    obtain ⟨hmem, rfl⟩ := KeyedTable.find_eq_some_iff.mp hfind
    exact hmem
  · intro hmem
    exact ⟨(key, value), KeyedTable.find_eq_some_iff.mpr ⟨hmem, rfl⟩, rfl⟩

theorem lookup_eq_none_iff : l.lookup key = none ↔ ∀ p ∈ l.entries, p.1 ≠ key := by
  rw [lookup, Option.map_eq_none_iff, KeyedTable.find_eq_none_iff]

theorem get_snd (l : RecencyList K V bound) (key : K) : (l.get key).2 = l.lookup key := by
  unfold get
  split
  · rename_i hnone
    exact hnone.symm
  · rename_i value hvalue
    exact hvalue.symm

theorem mem_of_mem_put {value : V} (h : p ∈ (l.put key value).entries) :
    p = (key, value) ∨ p ∈ l.entries ∧ p.1 ≠ key :=
  KeyedTable.mem_putFront.mp (List.mem_of_mem_take h)

theorem put_entries_of_lookup_eq_none (h : l.lookup key = none) (value : V) :
    (l.put key value).entries = ((key, value) :: l.entries).take bound := by
  have hall : l.entries.filter (fun p => p.1 ≠ key) = l.entries := by
    refine List.filter_eq_self.mpr fun p hp => ?_
    simpa using lookup_eq_none_iff.mp h p hp
  change ((key, value) :: l.entries.filter fun p => p.1 ≠ key).take bound = _
  rw [hall]

theorem put_entries_of_mem {old : V} (h : (key, old) ∈ l.entries) (value : V) :
    (l.put key value).entries = (key, value) :: l.entries.filter fun p => p.1 ≠ key := by
  have hlt : (l.entries.filter fun p => p.1 ≠ key).length < l.entries.length := by
    rw [List.length_filter_lt_length_iff_exists]
    exact ⟨(key, old), h, by simp⟩
  have hlen := l.bounded
  refine List.take_of_length_le ?_
  rw [KeyedTable.putFront, List.length_cons]
  exact le_trans hlt hlen

theorem mem_delete : p ∈ (l.delete key).entries ↔ p ∈ l.entries ∧ p.1 ≠ key := by
  rw [entries, delete, KeyedTable.mem_keepWhere, decide_eq_true_eq]

omit [DecidableEq K] in
theorem mem_deleteFunc {fn : K → V → Bool} :
    p ∈ (l.deleteFunc fn).entries ↔ p ∈ l.entries ∧ fn p.1 p.2 = false := by
  rw [entries, deleteFunc, KeyedTable.mem_keepWhere, Bool.not_eq_true']

theorem mem_get : p ∈ (l.get key).1.entries ↔ p ∈ l.entries := by
  unfold get
  split
  · exact Iff.rfl
  · rename_i value hvalue
    have hmem := lookup_eq_some_iff.mp hvalue
    rw [put_entries_of_mem hmem, List.mem_cons, List.mem_filter, decide_eq_true_eq]
    constructor
    · rintro (rfl | ⟨hp, -⟩)
      · exact hmem
      · exact hp
    · intro hp
      by_cases hkey : p.1 = key
      -- the key has one value
      · have hsome : l.lookup key = some p.2 := lookup_eq_some_iff.mpr (hkey ▸ hp)
        rw [hvalue, Option.some.injEq] at hsome
        exact .inl (Prod.ext hkey hsome.symm)
      · exact .inr ⟨hp, hkey⟩

/-! ## The last value put -/

/-- The last value put under `key`, `acc` if there is none. -/
def lastPut (key : K) (acc : Option V) : List (CacheOp K V) → Option V
  | [] => acc
  | .put k value :: ops => lastPut key (if k = key then some value else acc) ops
  | _ :: ops => lastPut key acc ops

/-- What is found was put last: one operation. -/
theorem mem_apply {op : CacheOp K V} (h : p ∈ (l.apply op).1.entries) :
    p ∈ l.entries ∧ (∀ value, op ≠ .put p.1 value) ∨ op = .put p.1 p.2 := by
  cases op with
  | get key => exact .inl ⟨mem_get.mp h, fun _ heq => by cases heq⟩
  | put key value =>
    rcases mem_of_mem_put h with rfl | ⟨hp, hne⟩
    · exact .inr rfl
    · refine .inl ⟨hp, fun v heq => ?_⟩
      cases heq
      exact hne rfl
  | delete key => exact .inl ⟨(mem_delete.mp h).1, fun _ heq => by cases heq⟩
  | deleteFunc fn => exact .inl ⟨(mem_deleteFunc.mp h).1, fun _ heq => by cases heq⟩

theorem lastPut_of_mem_run (l : RecencyList K V bound) (acc : K → Option V)
    (hacc : ∀ p ∈ l.entries, acc p.1 = some p.2) {ops : List (CacheOp K V)}
    (hp : p ∈ (l.run ops).1.entries) : lastPut p.1 (acc p.1) ops = some p.2 := by
  induction ops generalizing l acc with
  | nil => exact hacc p hp
  | cons op ops ih =>
    -- what the history says after this operation
    let acc' : K → Option V := fun k => lastPut k (acc k) [op]
    have hacc' : ∀ q ∈ (l.apply op).1.entries, acc' q.1 = some q.2 := by
      intro q hq
      rcases mem_apply hq with ⟨hold, hnot⟩ | rfl
      · cases op with
        | put k value =>
          have hne : k ≠ q.1 := by
            rintro rfl
            exact hnot value rfl
          change (if k = q.1 then some value else acc q.1) = some q.2
          rw [if_neg hne]
          exact hacc q hold
        | _ => exact hacc q hold
      · exact if_pos rfl
    have hrest : lastPut p.1 (acc' p.1) ops = some p.2 := ih _ acc' hacc' hp
    cases op <;> exact hrest

/-! ## Departures -/

/-- **Why an entry disappears**: it was deleted, or its deletion condition held, or it was the least
    recently used one of a full list when a new key was put. -/
theorem departure (hbound : 1 ≤ bound) {op : CacheOp K V} (hp : p ∈ l.entries)
    (hgone : (l.apply op).1.lookup p.1 = none) :
    op = .delete p.1 ∨ (∃ fn, op = .deleteFunc fn ∧ fn p.1 p.2 = true) ∨
      ∃ key value, op = .put key value ∧ l.lookup key = none ∧ l.entries.length = bound ∧
        l.entries.getLast? = some p := by
  have habsent : p ∉ (l.apply op).1.entries := fun h => lookup_eq_none_iff.mp hgone p h rfl
  cases op with
  | get key => exact absurd (mem_get.mpr hp) habsent
  | delete key =>
    refine .inl (congrArg _ (Decidable.byContradiction fun hne => ?_))
    exact habsent (mem_delete.mpr ⟨hp, Ne.symm hne⟩)
  | deleteFunc fn =>
    refine .inr (.inl ⟨fn, rfl, Decidable.byContradiction fun hfalse => ?_⟩)
    exact habsent (mem_deleteFunc.mpr ⟨hp, Bool.not_eq_true _ ▸ hfalse⟩)
  | put key value =>
    have habsent : p ∉ (l.put key value).entries := habsent
    have hother : p.1 ≠ key := by
      rintro rfl
      -- the new entry itself is never cut off
      obtain ⟨n, rfl⟩ := Nat.exists_eq_add_of_le' hbound
      exact lookup_eq_none_iff.mp hgone (p.1, value) List.mem_cons_self rfl
    cases hkey : l.lookup key with
    | some old =>
      rw [put_entries_of_mem (lookup_eq_some_iff.mp hkey)] at habsent
      exact absurd (List.mem_cons_of_mem _ (List.mem_filter.mpr ⟨hp, by simpa using hother⟩)) habsent
    | none =>
      rw [put_entries_of_lookup_eq_none hkey] at habsent
      obtain ⟨n, rfl⟩ := Nat.exists_eq_add_of_le' hbound
      rw [List.take_succ_cons, List.mem_cons, not_or] at habsent
      have hbounded : l.entries.length ≤ n + 1 := l.bounded
      -- the entry is there and not among the first `n`, so it is the last one
      obtain ⟨i, hi, hpi⟩ := List.getElem_of_mem hp
      have hlast : n ≤ i := by
        by_contra hlt
        exact habsent.2 (List.mem_take_iff_getElem.mpr ⟨i, by omega, hpi⟩)
      refine .inr (.inr ⟨key, value, rfl, hkey, by omega, ?_⟩)
      rw [List.getLast?_eq_getElem?, List.getElem?_eq_some_iff]
      exact ⟨by omega, by rw [← hpi]; congr 1; omega⟩

end RecencyList

end ServiceRuntime.Storage
