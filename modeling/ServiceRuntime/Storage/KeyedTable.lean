import Mathlib

/-!
# Tables with a Unique Key

A table of rows in which no two rows have the same key, as a database keeps it under a
unique constraint. The constraint is a field of the structure, so a table that violates
it cannot be built: `insert` refuses a second row with a key, and `update` may only use
functions that leave the key alone.

A table is observed through `find`, the row with a given key. Each operation comes with
the lemma that says what `find` returns after it.
-/

namespace ServiceRuntime.Storage

universe u v

/-- Rows with pairwise different keys. -/
structure KeyedTable (ρ : Type u) {κ : Type v} (key : ρ → κ) where
  rows : List ρ
  unique : (rows.map key).Nodup
  deriving DecidableEq

namespace KeyedTable

variable {ρ : Type u} {κ : Type v} {key : ρ → κ}

def empty : KeyedTable ρ key := ⟨[], List.nodup_nil⟩

/-! ## Delete -/

/-- `delete ... where not p`: keep the rows that satisfy `p`. -/
def keepWhere (t : KeyedTable ρ key) (p : ρ → Bool) : KeyedTable ρ key where
  rows := t.rows.filter p
  unique := t.unique.sublist (List.filter_sublist.map key)

variable {t : KeyedTable ρ key} {r x : ρ}

theorem mem_keepWhere {p : ρ → Bool} : r ∈ (t.keepWhere p).rows ↔ r ∈ t.rows ∧ p r = true :=
  List.mem_filter

variable [DecidableEq κ]

/-! ## Looking up a key -/

/-- `select ... where key = k`. -/
def find (t : KeyedTable ρ key) (k : κ) : Option ρ := t.rows.find? fun r => key r = k

theorem find_eq_none_iff {k : κ} : t.find k = none ↔ ∀ r ∈ t.rows, key r ≠ k := by
  simp [find]

/-- `find` finds every row of the table: no other row can hide behind its key. -/
theorem find_eq_some_iff {k : κ} : t.find k = some r ↔ r ∈ t.rows ∧ key r = k := by
  constructor
  · intro h
    exact ⟨List.mem_of_find?_eq_some h, by simpa using List.find?_some h⟩
  · rintro ⟨hmem, hkey⟩
    cases hfind : t.find k with
    | none => exact absurd hkey (find_eq_none_iff.mp hfind r hmem)
    | some r' =>
      have hkey' : key r' = k := by simpa using List.find?_some hfind
      -- two rows with one key are one row
      have heq : r' = r :=
        List.inj_on_of_nodup_map t.unique (List.mem_of_find?_eq_some hfind) hmem
          (hkey'.trans hkey.symm)
      rw [heq]

/-! ## Insert -/

/-- `insert`: refused, as `none`, when the key is taken. -/
def insert (t : KeyedTable ρ key) (r : ρ) : Option (KeyedTable ρ key) :=
  if h : t.find (key r) = none then
    some ⟨r :: t.rows, by
      rw [List.map_cons, List.nodup_cons]
      refine ⟨?_, t.unique⟩
      intro hmem
      obtain ⟨r', hr', hkey⟩ := List.mem_map.mp hmem
      exact find_eq_none_iff.mp h r' hr' hkey⟩
  else none

theorem insert_eq_some {t' : KeyedTable ρ key} (h : t.insert r = some t') :
    t.find (key r) = none ∧ t'.rows = r :: t.rows := by
  unfold insert at h
  split at h
  · rename_i hnone
    cases h
    exact ⟨hnone, rfl⟩
  · cases h

theorem insert_eq_none_iff : t.insert r = none ↔ t.find (key r) ≠ none := by
  unfold insert
  split
  · rename_i hnone
    simp [hnone]
  · rename_i hsome
    simp [hsome]

/-! ## Update -/

/-- `update ... where key = k`, with a function that keeps the key. -/
def update (t : KeyedTable ρ key) (k : κ) (f : ρ → ρ) (hf : ∀ r, key (f r) = key r) :
    KeyedTable ρ key where
  rows := t.rows.map fun r => if key r = k then f r else r
  unique := by
    have hkeys : (t.rows.map fun r => if key r = k then f r else r).map key = t.rows.map key := by
      rw [List.map_map]
      apply List.map_congr_left
      intro r _
      by_cases hr : key r = k
      · simp [hr, hf]
      · simp [hr]
    rw [hkeys]
    exact t.unique

theorem mem_update {k : κ} {f : ρ → ρ} {hf : ∀ r, key (f r) = key r}
    (h : r ∈ (t.update k f hf).rows) :
    (∃ r' ∈ t.rows, key r' = k ∧ f r' = r) ∨ r ∈ t.rows ∧ key r ≠ k := by
  obtain ⟨r', hr', heq⟩ := List.mem_map.mp h
  by_cases hk : key r' = k
  · rw [if_pos hk] at heq
    exact .inl ⟨r', hr', hk, heq⟩
  · rw [if_neg hk] at heq
    subst heq
    exact .inr ⟨hr', hk⟩

theorem find_update (t : KeyedTable ρ key) (k : κ) (f : ρ → ρ) (hf : ∀ r, key (f r) = key r) :
    (t.update k f hf).find k = (t.find k).map f := by
  cases hfind : t.find k with
  | none =>
    rw [Option.map_none, find_eq_none_iff]
    intro r hr
    rcases mem_update hr with ⟨r', hr', hk, rfl⟩ | ⟨-, hne⟩
    · exact absurd hk (find_eq_none_iff.mp hfind r' hr')
    · exact hne
  | some r =>
    obtain ⟨hmem, hk⟩ := find_eq_some_iff.mp hfind
    rw [Option.map_some, find_eq_some_iff]
    refine ⟨List.mem_map.mpr ⟨r, hmem, by simp [hk]⟩, ?_⟩
    rw [hf, hk]

/-! ## The order of the rows -/

/-- Put `r` in front, in place of the row with its key if there is one. -/
def putFront (t : KeyedTable ρ key) (r : ρ) : KeyedTable ρ key where
  rows := r :: t.rows.filter fun x => key x ≠ key r
  unique := by
    rw [List.map_cons, List.nodup_cons]
    refine ⟨?_, t.unique.sublist (List.filter_sublist.map key)⟩
    intro hmem
    obtain ⟨x, hx, hkey⟩ := List.mem_map.mp hmem
    have hne := (List.mem_filter.mp hx).2
    rw [decide_eq_true_eq] at hne
    exact hne hkey

theorem mem_putFront : x ∈ (t.putFront r).rows ↔ x = r ∨ x ∈ t.rows ∧ key x ≠ key r := by
  rw [putFront, List.mem_cons, List.mem_filter, decide_eq_true_eq]

theorem find_putFront (t : KeyedTable ρ key) (r : ρ) (k : κ) :
    (t.putFront r).find k = if key r = k then some r else t.find k := by
  by_cases hk : key r = k
  · simp [find, putFront, hk]
  -- the rows that are taken out do not have the key either
  · rw [if_neg hk, find, putFront, List.find?_cons_of_neg (by simpa using hk), List.find?_filter,
      find]
    congr 1
    funext x
    by_cases hx : key x = k
    · simp [hx, Ne.symm hk]
    · simp [hx]

theorem putFront_of_notMem (h : ∀ x ∈ t.rows, key x ≠ key r) :
    (t.putFront r).rows = r :: t.rows := by
  change r :: t.rows.filter (fun x => key x ≠ key r) = _
  rw [List.filter_eq_self.mpr fun x hx => decide_eq_true (h x hx)]

def putAll (t : KeyedTable ρ key) (rs : List ρ) : KeyedTable ρ key := rs.foldl putFront t

theorem putAll_append (t : KeyedTable ρ key) (rs rs' : List ρ) :
    t.putAll (rs ++ rs') = (t.putAll rs).putAll rs' := List.foldl_append

theorem mem_or_mem_of_mem_putAll {rs : List ρ} (h : x ∈ (t.putAll rs).rows) :
    x ∈ rs ∨ x ∈ t.rows := by
  induction rs generalizing t with
  | nil => exact .inr h
  | cons r rs ih =>
    rcases ih (t := t.putFront r) h with h | h
    · exact .inl (List.mem_cons_of_mem r h)
    · rcases mem_putFront.mp h with rfl | ⟨h, -⟩
      · exact .inl List.mem_cons_self
      · exact .inr h

/-- **Rows with different keys are all there in the end**, together with the rows whose place none
    of them took. -/
theorem mem_putAll_iff {rs : List ρ} (hrs : (rs.map key).Nodup) :
    x ∈ (t.putAll rs).rows ↔ x ∈ rs ∨ x ∈ t.rows ∧ key x ∉ rs.map key := by
  induction rs generalizing t with
  | nil => simp [putAll]
  | cons r rs ih =>
    rw [List.map_cons, List.nodup_cons] at hrs
    have hrest := ih (t := t.putFront r) hrs.2
    rw [mem_putFront] at hrest
    rw [List.map_cons, List.mem_cons, List.mem_cons, not_or]
    refine hrest.trans ?_
    constructor
    · rintro (hx | ⟨rfl | ⟨hx, hkey⟩, hnew⟩)
      · exact .inl (.inr hx)
      · exact .inl (.inl rfl)
      · exact .inr ⟨hx, hkey, hnew⟩
    · rintro ((rfl | hx) | ⟨hx, hkey, hnew⟩)
      · exact .inr ⟨.inl rfl, hrs.1⟩
      · exact .inl hx
      · exact .inr ⟨.inr ⟨hx, hkey⟩, hnew⟩

theorem filter_key_ne {before after : List ρ} (h : ((before ++ r :: after).map key).Nodup) :
    (before ++ r :: after).filter (fun x => key x ≠ key r) = before ++ after := by
  rw [List.map_append, List.map_cons, List.nodup_append, List.nodup_cons] at h
  obtain ⟨-, ⟨hafter, -⟩, hbefore⟩ := h
  have hkeep : ∀ x ∈ before ++ after, key x ≠ key r := by
    intro x hx
    rcases List.mem_append.mp hx with hx | hx
    · exact hbefore _ (List.mem_map_of_mem hx) _ List.mem_cons_self
    · intro heq
      exact hafter (heq ▸ List.mem_map_of_mem hx)
  rw [List.filter_append, List.filter_cons_of_neg (by simp), ← List.filter_append]
  exact List.filter_eq_self.mpr fun x hx => by simpa using hkeep x hx

/-- The first `n` rows. -/
def take (t : KeyedTable ρ key) (n : Nat) : KeyedTable ρ key where
  rows := t.rows.take n
  unique := t.unique.sublist ((List.take_sublist n t.rows).map key)

end KeyedTable

/-! ## Nullable columns with unique values -/

/-- A value that occurs in a column without repetitions selects exactly one row. -/
theorem filter_eq_singleton {ρ : Type u} {β : Type v} [DecidableEq β] {col : ρ → Option β}
    {rows : List ρ} {r : ρ} {b : β} (hunique : (rows.filterMap col).Nodup) (hr : r ∈ rows)
    (hb : col r = some b) : rows.filter (fun x => col x = some b) = [r] := by
  induction rows with
  | nil => cases hr
  | cons x rows ih =>
    rcases List.mem_cons.mp hr with rfl | hr
    -- the value occurs in the first row, so in no other
    · rw [List.filterMap_cons_some hb, List.nodup_cons] at hunique
      have hrest : rows.filter (fun x => col x = some b) = [] := by
        rw [List.filter_eq_nil_iff]
        intro y hy hyb
        exact hunique.1 (List.mem_filterMap.mpr ⟨y, hy, by simpa using hyb⟩)
      simp [hb, hrest]
    · have hx : col x ≠ some b := by
        intro hxb
        rw [List.filterMap_cons_some hxb, List.nodup_cons] at hunique
        exact hunique.1 (List.mem_filterMap.mpr ⟨r, hr, hb⟩)
      have htail : (rows.filterMap col).Nodup := by
        refine hunique.sublist ?_
        exact (List.sublist_cons_self x rows).filterMap col
      simp [hx, ih htail hr]

end ServiceRuntime.Storage
