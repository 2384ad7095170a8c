import ServiceRuntime.Storage.KeyedTable

/-!
# Rows in the Order of Their Keys

A table whose keys are ordered can be read in the order of the keys, and a reader may stop after
the first few rows. Since no two rows have the same key, there is only one such order, so reading
commutes with deleting rows (`sortedRows_keepWhere`), and the first rows are those with the
smallest keys (`key_lt_of_mem_take`).
-/

namespace ServiceRuntime.Storage.KeyedTable

universe u v

variable {ρ : Type u} {κ : Type v} [LinearOrder κ] {key : ρ → κ}

/-- `select ... order by key`. -/
def sortedRows (t : KeyedTable ρ key) : List ρ := t.rows.insertionSort fun a b => key a ≤ key b

theorem perm_sortedRows (t : KeyedTable ρ key) : t.sortedRows.Perm t.rows :=
  List.perm_insertionSort _ _

theorem mem_sortedRows {t : KeyedTable ρ key} {r : ρ} : r ∈ t.sortedRows ↔ r ∈ t.rows :=
  t.perm_sortedRows.mem_iff

/-- Keys increase along the rows: they are in order, and they differ. -/
theorem pairwise_sortedRows (t : KeyedTable ρ key) :
    t.sortedRows.Pairwise fun a b => key a < key b := by
  have htotal : Std.Total fun a b : ρ => key a ≤ key b := ⟨fun a b => le_total (key a) (key b)⟩
  have htrans : IsTrans ρ fun a b => key a ≤ key b := ⟨fun _ _ _ => le_trans⟩
  have hle : t.sortedRows.Pairwise fun a b => key a ≤ key b := List.pairwise_insertionSort _ _
  have hnodup : (t.sortedRows.map key).Nodup := (t.perm_sortedRows.map key).nodup_iff.mpr t.unique
  have hne : t.sortedRows.Pairwise fun a b => key a ≠ key b := List.pairwise_map.mp hnodup
  exact (hle.and hne).imp fun ⟨hle, hne⟩ => lt_of_le_of_ne hle hne

theorem sortedRows_keepWhere (t : KeyedTable ρ key) (p : ρ → Bool) :
    (t.keepWhere p).sortedRows = t.sortedRows.filter p := by
  apply @List.Perm.eq_of_pairwise _ (fun a b => key a < key b)
  · intro a b _ _ hab hba
    exact absurd hba hab.asymm
  · exact (t.keepWhere p).pairwise_sortedRows
  · exact t.pairwise_sortedRows.sublist List.filter_sublist
  · exact (t.keepWhere p).perm_sortedRows.trans (t.perm_sortedRows.filter p).symm

/-! ## The first rows -/

theorem key_lt_of_mem_take {l : List ρ} (hl : l.Pairwise fun a b => key a < key b) {n : Nat}
    {x y : ρ} (hx : x ∈ l.take n) (hy : y ∈ l) (hrest : y ∉ l.take n) : key x < key y := by
  rw [← List.take_append_drop n l, List.pairwise_append] at hl
  apply hl.2.2 x hx y
  rw [← List.take_append_drop n l, List.mem_append] at hy
  exact hy.resolve_left hrest

/-- The first `n` rows all satisfy `p` exactly if before each row that does not, there are `n`
    that do. -/
theorem forall_mem_take_iff {l : List ρ} (hl : l.Pairwise fun a b => key a < key b)
    (p : ρ → Bool) (n : Nat) :
    (∀ x ∈ l.take n, p x = true) ↔
      ∀ b ∈ l, p b = false → n ≤ (l.filter fun x => p x && key x < key b).length := by
  constructor
  · intro hall b hb hpb
    have hnot : b ∉ l.take n := by
      intro hmem
      rw [hall b hmem] at hpb
      cases hpb
    -- a row outside the first `n` means that there are `n` before it
    have hlength : (l.take n).length = n := by
      rw [List.length_take, min_eq_left_iff]
      by_contra hlt
      have hall : l.take n = l := List.take_of_length_le (by omega)
      rw [hall] at hnot
      exact hnot hb
    have hkept : (l.take n).filter (fun x => p x && key x < key b) = l.take n := by
      rw [List.filter_eq_self]
      intro x hx
      simp [hall x hx, key_lt_of_mem_take hl hx hb hnot]
    calc n = ((l.take n).filter fun x => p x && key x < key b).length := by rw [hkept, hlength]
      _ ≤ (l.filter fun x => p x && key x < key b).length :=
        ((List.take_sublist n l).filter _).length_le
  · intro hcount x hx
    by_contra hpx
    rw [Bool.not_eq_true] at hpx
    obtain ⟨i, hi, rfl⟩ := List.mem_take_iff_getElem.mp hx
    have hlt : i < l.length := by omega
    -- smaller keys are further in front
    have hnone : (l.drop i).filter (fun y => p y && key y < key l[i]) = [] := by
      rw [List.filter_eq_nil_iff, List.drop_eq_getElem_cons hlt]
      intro y hy
      rcases List.mem_cons.mp hy with rfl | hy
      · simp
      · rw [← List.take_append_drop i l, List.drop_eq_getElem_cons hlt, List.pairwise_append,
          List.pairwise_cons] at hl
        simp [(hl.2.1.1 y hy).le]
    -- so there are no more than `i` of them, which is less than `n`
    have hfew : (l.filter fun y => p y && key y < key l[i]).length ≤ i := by
      have hsplit : l.filter (fun y => p y && key y < key l[i]) =
          (l.take i).filter (fun y => p y && key y < key l[i]) := by
        rw [← List.append_nil ((l.take i).filter _), ← hnone, ← List.filter_append,
          List.take_append_drop]
      rw [hsplit]
      exact (List.length_filter_le _ _).trans (List.length_take_le i l)
    have hmany := hcount l[i] (List.getElem_mem hlt) hpx
    omega

end ServiceRuntime.Storage.KeyedTable
