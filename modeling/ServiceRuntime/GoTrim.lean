import ServiceRuntime.GoStrings

/-!
# Taking Suffixes Off

`strings.TrimSuffix` takes one suffix off, if the text has it. A loop over several suffixes takes
each of them off at most once, in the order of the list. `Taken` says which ones: the text is what
is left, followed by the suffixes that were taken off, and none of those that were still to come
could have been taken off what is left.

If no suffix of the list ends in another one, such a reading of a text is the only one
(`Taken.strip_eq`), so what the loop leaves can be read off the text.
-/

namespace ServiceRuntime.GoTrim

open GoStrings

universe u

/-! ## Lists -/

section Lists

variable {α : Type u}

/-- No suffix of the list ends in another one. -/
structure Independent (suffixes : List (List α)) : Prop where
  nodup : suffixes.Nodup
  apart : ∀ s ∈ suffixes, ∀ t ∈ suffixes, s <:+ t → s = t

variable {s w : List α} {suffixes : List (List α)}

theorem Independent.of_cons (h : Independent (s :: suffixes)) : Independent suffixes where
  nodup := (List.nodup_cons.mp h.nodup).2
  apart a ha b hb := h.apart a (List.mem_cons_of_mem s ha) b (List.mem_cons_of_mem s hb)

theorem Independent.eq_of_suffix (h : Independent suffixes) {t : List α} (hs : s ∈ suffixes)
    (ht : t ∈ suffixes) (hsw : s <:+ w) (htw : t <:+ w) : s = t := by
  rcases List.suffix_or_suffix_of_suffix hsw htw with hst | hts
  · exact h.apart s hs t ht hst
  · exact (h.apart t ht s hs hts).symm

variable [DecidableEq α]

/-- A text without a suffix, if it has it. -/
def dropSuffix (w s : List α) : List α := if s <:+ w then w.rdrop s.length else w

theorem dropSuffix_append (w s : List α) : dropSuffix (w ++ s) s = w := by
  rw [dropSuffix, if_pos (List.suffix_append w s), List.rdrop_append_length]

theorem dropSuffix_of_not (h : ¬ s <:+ w) : dropSuffix w s = w := if_neg h

def strip (suffixes : List (List α)) (w : List α) : List α := suffixes.foldl dropSuffix w

theorem strip_of_not (h : ∀ s ∈ suffixes, ¬ s <:+ w) : strip suffixes w = w := by
  induction suffixes with
  | nil => rfl
  | cons s suffixes ih =>
    rw [strip, List.foldl_cons, dropSuffix_of_not (h s List.mem_cons_self)]
    exact ih fun t ht => h t (List.mem_cons_of_mem s ht)

/-- A reading of a text: `x` is left after `taken` has been taken off, the first of them last. -/
structure Taken (suffixes : List (List α)) (w x : List α) (taken : List (List α)) : Prop where
  sublist : taken.Sublist suffixes
  text : w = x ++ taken.reverse.flatten
  /-- No suffix after the last one taken off is at the end of what is left. -/
  rest : ∀ s, (taken ++ [s]).Sublist suffixes → ¬ s <:+ x

theorem exists_taken (hnodup : suffixes.Nodup) (w : List α) :
    ∃ taken, Taken suffixes w (strip suffixes w) taken := by
  induction suffixes generalizing w with
  | nil =>
    refine ⟨[], List.Sublist.refl _, (List.append_nil w).symm, fun s hs => ?_⟩
    cases hs
  | cons s suffixes ih =>
    obtain ⟨hs, hnodup⟩ := List.nodup_cons.mp hnodup
    rw [strip, List.foldl_cons]
    by_cases hsuffix : s <:+ w
    · obtain ⟨front, rfl⟩ := hsuffix
      rw [dropSuffix_append]
      obtain ⟨taken, h⟩ := ih hnodup front
      refine ⟨s :: taken, h.sublist.cons_cons s, ?_, fun t ht => ?_⟩
      · rw [List.reverse_cons, List.flatten_append, List.flatten_singleton, ← List.append_assoc]
        exact congrArg (· ++ s) h.text
      · exact h.rest t (List.cons_sublist_cons.mp ht)
    · rw [dropSuffix_of_not hsuffix]
      obtain ⟨taken, h⟩ := ih hnodup w
      refine ⟨taken, h.sublist.cons s, h.text, fun t ht => ?_⟩
      cases taken with
      | nil =>
        -- nothing was taken off at all
        have hleft : w = strip suffixes w := by
          have htext := h.text
          rwa [List.reverse_nil, List.flatten_nil, List.append_nil] at htext
        rcases List.mem_cons.mp (List.singleton_sublist.mp ht) with rfl | ht
        · show ¬ _ <:+ strip suffixes w
          rwa [← hleft]
        · exact h.rest t (List.singleton_sublist.mpr ht)
      | cons first taken =>
        -- the first one taken off comes later in the list
        have hfirst : first ≠ s := by
          rintro rfl
          exact hs (h.sublist.mem List.mem_cons_self)
        refine h.rest t ?_
        rcases List.sublist_cons_iff.mp ht with ht | ⟨tail, heq, -⟩
        · exact ht
        · exact absurd (List.cons.inj heq).1 hfirst

/-- **A reading of a text is what the loop does.** -/
theorem Taken.strip_eq {taken : List (List α)} {x : List α} (hsuffixes : Independent suffixes)
    (h : Taken suffixes w x taken) : strip suffixes w = x := by
  induction suffixes generalizing w taken with
  | nil =>
    obtain rfl := List.sublist_nil.mp h.sublist
    have htext := h.text
    rwa [List.reverse_nil, List.flatten_nil, List.append_nil] at htext
  | cons s suffixes ih =>
    have hs := (List.nodup_cons.mp hsuffixes.nodup).1
    rw [strip, List.foldl_cons]
    rcases List.sublist_cons_iff.mp h.sublist with hskip | ⟨tail, rfl, htail⟩
    -- the suffix is not among those taken off
    · have hnot : ¬ s <:+ w := by
        intro hsuffix
        cases taken with
        | nil =>
          have htext := h.text
          rw [List.reverse_nil, List.flatten_nil, List.append_nil] at htext
          exact h.rest s (List.singleton_sublist.mpr List.mem_cons_self) (htext ▸ hsuffix)
        | cons first taken =>
          have hfirst : first ∈ suffixes := hskip.mem List.mem_cons_self
          have hend : first <:+ w := by
            rw [h.text, List.reverse_cons, List.flatten_append, List.flatten_singleton,
              ← List.append_assoc]
            exact List.suffix_append _ _
          have heq := hsuffixes.eq_of_suffix List.mem_cons_self (List.mem_cons_of_mem s hfirst)
            hsuffix hend
          exact hs (heq ▸ hfirst)
      rw [dropSuffix_of_not hnot]
      exact ih hsuffixes.of_cons ⟨hskip, h.text, fun t ht => h.rest t (ht.cons s)⟩
    · have htext : w = (x ++ tail.reverse.flatten) ++ s := by
        rw [h.text, List.reverse_cons, List.flatten_append, List.flatten_singleton,
          List.append_assoc]
      rw [htext, dropSuffix_append]
      exact ih hsuffixes.of_cons ⟨htail, rfl, fun t ht => h.rest t (ht.cons_cons s)⟩

end Lists

/-! ## Cutting from the ends -/

section Ends

variable {α : Type u} {p : α → Bool}

variable {back front : List α}

theorem rdropWhile_append (h : back.rdropWhile p ≠ []) :
    (front ++ back).rdropWhile p = front ++ back.rdropWhile p := by
  have hne : ¬(back.reverse.dropWhile p).isEmpty = true := by
    rw [List.isEmpty_iff]
    intro hempty
    exact h (by rw [List.rdropWhile, hempty, List.reverse_nil])
  rw [List.rdropWhile, List.reverse_append, List.dropWhile_append, if_neg hne, List.reverse_append,
    List.reverse_reverse, List.rdropWhile]

theorem rdropWhile_append_of_all (h : ∀ a ∈ back, p a = true) :
    (front ++ back).rdropWhile p = front.rdropWhile p := by
  induction back using List.reverseRecOn with
  | nil => rw [List.append_nil]
  | append_singleton back a ih =>
    have ha := h a (List.mem_append_right back List.mem_cons_self)
    rw [← List.append_assoc, List.rdropWhile_concat_pos _ _ _ ha]
    exact ih fun b hb => h b (List.mem_append_left [a] hb)

theorem rdropWhile_append_of_none (h : ∀ a ∈ front, ¬p a = true) :
    (front ++ back).rdropWhile p = front ++ back.rdropWhile p := by
  by_cases hback : back.rdropWhile p = []
  · have hfront : front.rdropWhile p = front := by
      rw [List.rdropWhile_eq_self_iff]
      intro hne
      exact h _ (List.getLast_mem hne)
    rw [rdropWhile_append_of_all (List.rdropWhile_eq_nil_iff.mp hback), hfront, hback,
      List.append_nil]
  · exact rdropWhile_append hback

theorem mem_rdropWhile {l : List α} {a : α} (ha : ¬p a = true) : a ∈ l.rdropWhile p ↔ a ∈ l := by
  constructor
  · exact fun h => (List.rdropWhile_prefix p l).mem h
  · intro h
    rw [← List.rdropWhile_append_rtakeWhile (p := p) (l := l), List.mem_append] at h
    exact h.resolve_right fun hcut => ha (List.mem_rtakeWhile_imp hcut)

end Ends

/-- `strings.Trim` with a single ASCII character to cut. -/
def trimByte (b : UInt8) (s : List UInt8) : List UInt8 := (s.dropWhile (· == b)).rdropWhile (· == b)

theorem head_trimByte_ne (b : UInt8) (s : List UInt8) : (trimByte b s).head? ≠ some b := by
  intro h
  obtain ⟨rest, hrest⟩ := List.head?_eq_some_iff.mp h
  obtain ⟨cut, hcut⟩ := List.rdropWhile_prefix (· == b) (s.dropWhile (· == b))
  have hhead := List.head?_dropWhile_not (· == b) s
  rw [← hcut, ← trimByte, hrest, List.cons_append, List.head?_cons] at hhead
  exact absurd hhead (by simp)

theorem getLast_trimByte_ne (b : UInt8) (s : List UInt8) : (trimByte b s).getLast? ≠ some b := by
  intro h
  have hne : trimByte b s ≠ [] := by
    intro hempty
    rw [hempty] at h
    cases h
  have hlast := List.rdropWhile_last_not _ _ hne
  rw [List.getLast?_eq_some_getLast hne, Option.some.injEq] at h
  exact hlast (beq_iff_eq.mpr h)

theorem trimByte_append {b : UInt8} {front : List UInt8} (hne : front ≠ []) (h : b ∉ front)
    (back : List UInt8) : trimByte b (front ++ back) = front ++ back.rdropWhile (· == b) := by
  have hother : ∀ a ∈ front, ¬(a == b) = true := by
    intro a ha hab
    rw [beq_iff_eq.mp hab] at ha
    exact h ha
  obtain ⟨a, front, rfl⟩ := List.exists_cons_of_ne_nil hne
  have hstart : (a :: (front ++ back)).dropWhile (· == b) = a :: (front ++ back) :=
    List.dropWhile_cons_of_neg (hother a List.mem_cons_self)
  rw [trimByte, List.cons_append, hstart, ← List.cons_append]
  exact rdropWhile_append_of_none hother

/-! ## Strings -/

def trimSuffix (s suffix : String) : String :=
  if hasSuffix s suffix then String.ofList (s.toList.rdrop suffix.toList.length) else s

/-- `strings.TrimRight` with a single character to cut. -/
def trimRight (s : String) (c : Char) : String := String.ofList (s.toList.rdropWhile (· == c))

theorem toList_trimSuffix (s suffix : String) :
    (trimSuffix s suffix).toList = dropSuffix s.toList suffix.toList := by
  unfold trimSuffix dropSuffix hasSuffix
  simp only [List.isSuffixOf_iff_suffix]
  split
  · rw [String.toList_ofList]
  · rfl

theorem toList_foldl_trimSuffix (suffixes : List String) (s : String) :
    (suffixes.foldl trimSuffix s).toList = strip (suffixes.map String.toList) s.toList := by
  induction suffixes generalizing s with
  | nil => rfl
  | cons suffix suffixes ih =>
    rw [List.foldl_cons, ih, toList_trimSuffix]
    rfl

end ServiceRuntime.GoTrim
