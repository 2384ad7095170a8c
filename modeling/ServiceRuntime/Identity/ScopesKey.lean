import ServiceRuntime.GoStrings

/-!
# Scope Sets as Cache Keys

`cacheScopesKey` makes one string out of a list of scopes: trim, drop blanks, sort, drop repetitions
and join with a NUL character. The repetitions are dropped in place: `deduped` is a slice of the
same array that the loop reads.

Two lists of scopes without NUL characters have the same key exactly if they name the same set of
scopes.
-/

namespace ServiceRuntime.Identity

open GoStrings

/-! ## The key -/

/-- The loop over `normalized`, at position `i`. Both slices live in `array`, and `deduped` is its
    first `len` elements. -/
def dedupLoop : Nat → List String → Nat → Nat → List String
  | 0, array, _, len => array.take len
  | fuel + 1, array, i, len =>
    let scope := array.getD i ""
    if len ≠ 0 ∧ array.getD (len - 1) "" = scope then dedupLoop fuel array (i + 1) len
    else dedupLoop fuel (array.set len scope) (i + 1) (len + 1)

/-- The scopes that count: trimmed, and not blank. -/
def normalized (scopes : List String) : List String :=
  (scopes.map trimSpace).filter (· ≠ "")

/-- The scopes of the key, in order. -/
def dedupedScopes (scopes : List String) : List String :=
  let sorted := (normalized scopes).insertionSort (· ≤ ·)
  dedupLoop sorted.length sorted 0 0

def cacheScopesKey (scopes : List String) : String :=
  join (String.singleton (Char.ofNat 0)) (dedupedScopes scopes)

/-! ## Dropping repetitions in place -/

/-- **The loop**: `done` has been kept in the first `len` places, `todo` is still to be read. A write
    goes to a place that has been read already, so `todo` stays as it is; what is kept increases
    strictly, and nothing is lost. -/
theorem dedupLoop_spec {array done todo : List String} {i len : Nat}
    (hdone : array.take len = done) (hlen : done.length = len) (hle : len ≤ i)
    (htodo : array.drop i = todo) (hinc : done.Pairwise (· < ·)) (hsorted : todo.Pairwise (· ≤ ·))
    (hcross : ∀ d ∈ done, ∀ t ∈ todo, d ≤ t) :
    (dedupLoop todo.length array i len).Pairwise (· < ·) ∧
      ∀ x, x ∈ dedupLoop todo.length array i len ↔ x ∈ done ∨ x ∈ todo := by
  -- on what is still to be read
  induction todo generalizing array done i len with
  | nil =>
    rw [List.length_nil, dedupLoop, hdone]
    exact ⟨hinc, fun x => by simp⟩
  | cons scope todo ih =>
    have hi : array.getD i "" = scope := by
      rw [List.getD_eq_getElem?_getD, ← List.head?_drop, htodo]
      rfl
    have htodo' : array.drop (i + 1) = todo := by
      rw [← List.tail_drop, htodo, List.tail_cons]
    -- there is a scope at `i`, so the write at `len` is inside of the array
    have hlt : len < array.length := by
      have hshort : i < array.length := by
        rw [← not_le]
        intro hge
        rw [List.drop_of_length_le hge] at htodo
        cases htodo
      omega
    rw [List.pairwise_cons] at hsorted
    rw [List.length_cons, dedupLoop, hi]
    by_cases hsame : len ≠ 0 ∧ array.getD (len - 1) "" = scope
    · simp only [if_pos hsame]
      -- the scope is the last one that was kept
      have hmem : scope ∈ done := by
        obtain ⟨hpos, hlast⟩ := hsame
        rw [← hdone, ← hlast, List.getD_eq_getElem _ _ (by omega)]
        exact List.mem_take_iff_getElem.mpr ⟨len - 1, by omega, rfl⟩
      obtain ⟨hout, hmem'⟩ := ih hdone hlen (by omega) htodo' hinc hsorted.2
        fun d hd t ht => hcross d hd t (List.mem_cons_of_mem _ ht)
      refine ⟨hout, fun x => ?_⟩
      rw [hmem' x, List.mem_cons]
      constructor
      · rintro (hx | hx)
        · exact .inl hx
        · exact .inr (.inr hx)
      · rintro (hx | rfl | hx)
        · exact .inl hx
        · exact .inl hmem
        · exact .inr hx
    · simp only [if_neg hsame]
      -- a scope that is not the last one kept is larger than all that were kept
      have hless : ∀ d ∈ done, d < scope := by
        intro d hd
        refine lt_of_le_of_ne (hcross d hd scope List.mem_cons_self) ?_
        rintro rfl
        rcases List.eq_nil_or_concat done with rfl | ⟨init, last, rfl⟩
        · cases hd
        -- the last one kept is at least `d`, and at most the next to come
        · rw [List.concat_eq_append] at *
          have hinit : len = init.length + 1 := by
            rw [← hlen, List.length_append, List.length_singleton]
          have hlast : array.getD (len - 1) "" = last := by
            have hkept : (array.take len)[len - 1]? = some last := by
              rw [hdone, hinit, Nat.add_sub_cancel, List.getElem?_concat_length]
            rw [List.getElem?_take_of_lt (by omega)] at hkept
            rw [List.getD_eq_getElem?_getD, hkept, Option.getD_some]
          have hle' : d ≤ last := by
            rcases List.mem_append.mp hd with hd | hd
            · exact le_of_lt
                ((List.pairwise_append.mp hinc).2.2 d hd last (List.mem_singleton_self _))
            · exact le_of_eq (List.mem_singleton.mp hd)
          have hge := hcross last (List.mem_append_right _ (List.mem_singleton_self _)) d
            List.mem_cons_self
          exact hsame ⟨by omega, hlast.trans (le_antisymm hge hle')⟩
      -- the write is below `i + 1`, so that it misses what is still to be read
      have hdone' : (array.set len scope).take (len + 1) = done ++ [scope] := by
        rw [List.set_eq_take_append_cons_drop, if_pos hlt, hdone, ← hlen,
          List.take_length_add_append]
        rfl
      have htodo'' : (array.set len scope).drop (i + 1) = todo := by
        rw [List.drop_set_of_lt (by omega), htodo']
      have hinc' : (done ++ [scope]).Pairwise (· < ·) :=
        List.pairwise_append.mpr ⟨hinc, List.pairwise_singleton _ _, by simpa using hless⟩
      have hcross' : ∀ d ∈ done ++ [scope], ∀ t ∈ todo, d ≤ t := by
        intro d hd t ht
        rcases List.mem_append.mp hd with hd | hd
        · exact hcross d hd t (List.mem_cons_of_mem _ ht)
        · exact List.mem_singleton.mp hd ▸ hsorted.1 t ht
      obtain ⟨hout, hmem⟩ := ih hdone' (by simp [hlen]) (by omega) htodo'' hinc' hsorted.2 hcross'
      refine ⟨hout, fun x => ?_⟩
      rw [hmem x, List.mem_append, List.mem_singleton, List.mem_cons, or_assoc]

theorem dedupedScopes_spec (scopes : List String) :
    (dedupedScopes scopes).Pairwise (· < ·) ∧
      ∀ x, x ∈ dedupedScopes scopes ↔ x ∈ normalized scopes := by
  rw [dedupedScopes]
  have hsorted : ((normalized scopes).insertionSort (· ≤ ·)).Pairwise (· ≤ ·) :=
    List.pairwise_insertionSort _ _
  have hmem (x : String) : x ∈ (normalized scopes).insertionSort (· ≤ ·) ↔ x ∈ normalized scopes :=
    List.mem_insertionSort _
  generalize (normalized scopes).insertionSort (· ≤ ·) = sorted at hsorted hmem ⊢
  obtain ⟨hinc, hout⟩ := dedupLoop_spec (i := 0) (List.take_zero (l := sorted)) rfl (le_refl 0)
    List.drop_zero List.Pairwise.nil hsorted fun d hd => by cases hd
  refine ⟨hinc, fun x => ?_⟩
  rw [hout x, ← hmem x, or_iff_right List.not_mem_nil]

/-! ## Keys and sets -/

def scopeSet (scopes : List String) : Set String :=
  {scope | scope ≠ "" ∧ ∃ s ∈ scopes, trimSpace s = scope}

def NulFree (scopes : List String) : Prop := ∀ s ∈ scopes, Char.ofNat 0 ∉ s.toList

instance (scopes : List String) : Decidable (NulFree scopes) :=
  inferInstanceAs (Decidable (∀ s ∈ scopes, _))

variable {as bs scopes : List String}

theorem mem_normalized {scope : String} : scope ∈ normalized scopes ↔ scope ∈ scopeSet scopes := by
  rw [normalized, List.mem_filter, List.mem_map, decide_eq_true_eq]
  exact and_comm

theorem parts_of_nulFree (h : NulFree scopes) :
    ∀ s ∈ dedupedScopes scopes, s ≠ "" ∧ Char.ofNat 0 ∉ s.toList := by
  intro scope hmem
  obtain ⟨hne, s, hs, rfl⟩ := mem_normalized.mp (((dedupedScopes_spec scopes).2 scope).mp hmem)
  exact ⟨hne, fun hnul => h s hs (mem_of_mem_trimSpace hnul)⟩

theorem cacheScopesKey_congr (h : scopeSet as = scopeSet bs) :
    cacheScopesKey as = cacheScopesKey bs := by
  obtain ⟨hinc, hmem⟩ := dedupedScopes_spec as
  obtain ⟨hinc', hmem'⟩ := dedupedScopes_spec bs
  have hsame : dedupedScopes as = dedupedScopes bs := by
    refine hinc.eq_of_mem_iff hinc' fun x => ?_
    rw [hmem, hmem', mem_normalized, mem_normalized, h]
  rw [cacheScopesKey, hsame, cacheScopesKey]

/-- **Different sets have different keys**, if no scope contains a NUL character. -/
theorem scopeSet_eq_of_cacheScopesKey_eq (has : NulFree as) (hbs : NulFree bs)
    (h : cacheScopesKey as = cacheScopesKey bs) : scopeSet as = scopeSet bs := by
  have hsame : dedupedScopes as = dedupedScopes bs :=
    join_injective (parts_of_nulFree has) (parts_of_nulFree hbs) h
  ext scope
  rw [← mem_normalized, ← mem_normalized, ← (dedupedScopes_spec as).2,
    ← (dedupedScopes_spec bs).2, hsame]

end ServiceRuntime.Identity
