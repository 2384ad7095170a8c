import Mathlib

/-!
# JSON Values

A value is a tree. Its numbers are of any type: the digits as they stand in a text, the number that
they mean, or what a decoder makes of them. Functions on values are folds, and `Value.induct` is the
induction that goes with them.

The members of an object stand in the tree as they do in the text. What they mean is a map, in which
the later of two members with one key counts; `Value.collapse` turns every object of a value into
its map. Collapsing twice is collapsing once, and it does not look at the numbers.
-/

namespace ServiceRuntime.Json

/-! ## Trees -/

inductive Value (N : Type) where
  | null
  | bool (b : Bool)
  | number (n : N)
  | string (s : String)
  | array (items : List (Value N))
  | object (fields : List (String × Value N))

variable {N M : Type} {β : Type*}

/-- What a fold makes of each kind of value. -/
structure Algebra (N : Type) (β : Type*) where
  null : β
  bool : Bool → β
  number : N → β
  string : String → β
  array : List β → β
  object : List (String × β) → β

mutual

def Value.fold (alg : Algebra N β) : Value N → β
  | .null => alg.null
  | .bool b => alg.bool b
  | .number n => alg.number n
  | .string s => alg.string s
  | .array items => alg.array (foldItems alg items)
  | .object fields => alg.object (foldFields alg fields)

def foldItems (alg : Algebra N β) : List (Value N) → List β
  | [] => []
  | v :: items => v.fold alg :: foldItems alg items

def foldFields (alg : Algebra N β) : List (String × Value N) → List (String × β)
  | [] => []
  | (key, v) :: fields => (key, v.fold alg) :: foldFields alg fields

end

/-- The values of a map, each put through a function. -/
def mapValues {α γ : Type*} (f : α → γ) (rows : List (String × α)) : List (String × γ) :=
  rows.map fun row => (row.1, f row.2)

theorem mapValues_congr {α γ : Type*} {f g : α → γ} {rows : List (String × α)}
    (h : ∀ row ∈ rows, f row.2 = g row.2) : mapValues f rows = mapValues g rows :=
  List.map_congr_left fun row hrow => congrArg (Prod.mk row.1) (h row hrow)

theorem mapValues_mapValues {α γ δ : Type*} (f : α → γ) (g : γ → δ) (rows : List (String × α)) :
    mapValues g (mapValues f rows) = mapValues (fun a => g (f a)) rows := List.map_map

theorem foldItems_eq (alg : Algebra N β) (items : List (Value N)) :
    foldItems alg items = items.map (Value.fold alg) := by
  induction items with
  | nil => rfl
  | cons v items ih => rw [foldItems, ih, List.map_cons]

theorem foldFields_eq (alg : Algebra N β) (fields : List (String × Value N)) :
    foldFields alg fields = mapValues (Value.fold alg) fields := by
  induction fields with
  | nil => rfl
  | cons field fields ih =>
    rw [foldFields, ih]
    rfl

theorem mapM_eq_some_map {α γ : Type*} {f : α → Option γ} {g : α → γ} {l : List α}
    (h : ∀ a ∈ l, f a = some (g a)) : l.mapM f = some (l.map g) := by
  induction l with
  | nil => rfl
  | cons a l ih =>
    rw [List.mapM_cons, h a List.mem_cons_self, ih fun b hb => h b (List.mem_cons_of_mem a hb)]
    rfl

namespace Value

theorem fold_array (alg : Algebra N β) (items : List (Value N)) :
    (array items).fold alg = alg.array (items.map (fold alg)) := by
  rw [fold, foldItems_eq]

theorem fold_object (alg : Algebra N β) (fields : List (String × Value N)) :
    (object fields).fold alg = alg.object (mapValues (fold alg) fields) := by
  rw [fold, foldFields_eq]

/-- **Induction on values**: what holds of the items and fields holds of the whole. -/
@[elab_as_elim]
theorem induct {motive : Value N → Prop} (null : motive null) (bool : ∀ b, motive (bool b))
    (number : ∀ n, motive (number n)) (string : ∀ s, motive (string s))
    (array : ∀ items, (∀ v ∈ items, motive v) → motive (array items))
    (object : ∀ fields, (∀ field ∈ fields, motive field.2) → motive (object fields))
    (v : Value N) : motive v := by
  -- the lists of a value are types of the recursion of their own
  apply @Value.rec N motive (fun items => ∀ v ∈ items, motive v)
    (fun fields => ∀ field ∈ fields, motive field.2) (fun field => motive field.2) null bool number
    string array object
  · simp
  · intro v items hv hitems w hw
    rcases List.mem_cons.mp hw with rfl | hw
    · exact hv
    · exact hitems w hw
  · simp
  · intro field fields hfield hfields w hw
    rcases List.mem_cons.mp hw with rfl | hw
    · exact hfield
    · exact hfields w hw
  · intro key v hv
    exact hv

/-! ## Numbers of another type -/

def map (f : N → M) : Value N → Value M :=
  fold ⟨null, bool, fun n => number (f n), string, array, object⟩

theorem map_array (f : N → M) (items : List (Value N)) :
    (array items).map f = array (items.map (map f)) := fold_array _ items

theorem map_object (f : N → M) (fields : List (String × Value N)) :
    (object fields).map f = object (mapValues (map f) fields) := fold_object _ fields

def convert (f : N → Option M) : Value N → Option (Value M) :=
  fold
    { null := some null
      bool := fun b => some (bool b)
      number := fun n => (f n).map number
      string := fun s => some (string s)
      array := fun items => (items.mapM id).map array
      object := fun fields =>
        (fields.mapM fun field : String × Option (Value M) =>
          field.2.map fun v => (field.1, v)).map object }

theorem convert_array (f : N → Option M) (items : List (Value N)) :
    (array items).convert f = ((items.map (convert f)).mapM id).map array := fold_array _ items

theorem convert_object (f : N → Option M) (fields : List (String × Value N)) :
    (object fields).convert f =
      ((mapValues (convert f) fields).mapM fun field : String × Option (Value M) =>
        field.2.map fun v => (field.1, v)).map object := fold_object _ fields

def numbers (p : N → Bool) : Value N → Bool :=
  fold
    { null := true
      bool := fun _ => true
      number := p
      string := fun _ => true
      array := fun items => items.all id
      object := fun fields => fields.all fun field => field.2 }

variable {p : N → Bool}

theorem numbers_array {items : List (Value N)} :
    (array items).numbers p = true ↔ ∀ v ∈ items, v.numbers p = true := by
  unfold numbers
  rw [fold_array]
  simp

theorem numbers_object {fields : List (String × Value N)} :
    (object fields).numbers p = true ↔ ∀ field ∈ fields, field.2.numbers p = true := by
  unfold numbers
  rw [fold_object]
  simp [mapValues]

def depth : Value N → ℕ :=
  fold
    { null := 0
      bool := fun _ => 0
      number := fun _ => 0
      string := fun _ => 0
      array := fun items => 1 + items.foldr max 0
      object := fun fields => 1 + (fields.map Prod.snd).foldr max 0 }

theorem map_map {L : Type} (f : N → M) (g : M → L) (v : Value N) :
    (v.map f).map g = v.map fun n => g (f n) := by
  induction v using induct with
  | null | bool | string | number => rfl
  | array items ih =>
    rw [map_array, map_array, map_array, List.map_map]
    exact congrArg array (List.map_congr_left ih)
  | object fields ih =>
    rw [map_object, map_object, map_object, mapValues_mapValues, mapValues_congr ih]

/-- A conversion that does not fail on the numbers of a value maps them. -/
theorem convert_eq_map {f : N → Option M} {g : N → M} (hfg : ∀ n, p n = true → f n = some (g n))
    (v : Value N) (h : v.numbers p = true) : v.convert f = some (v.map g) := by
  induction v using induct with
  | null | bool | string => rfl
  | number n =>
    show (f n).map number = some (number (g n))
    rw [hfg n h]
    rfl
  | array items ih =>
    rw [numbers_array] at h
    have hitems : (items.map (convert f)).mapM id = some (items.map (map g)) := by
      rw [List.mapM_map]
      exact mapM_eq_some_map fun v hv => ih v hv (h v hv)
    rw [convert_array, map_array, hitems, Option.map_some]
  | object fields ih =>
    rw [numbers_object] at h
    have hfields : (mapValues (convert f) fields).mapM
        (fun field => field.2.map fun v => (field.1, v)) = some (mapValues (map g) fields) := by
      rw [mapValues, List.mapM_map]
      apply mapM_eq_some_map
      intro field hfield
      show ((convert f field.2).map fun v => (field.1, v)) = some (field.1, map g field.2)
      rw [ih field hfield (h field hfield)]
      rfl
    rw [convert_object, map_object, hfields, Option.map_some]

theorem map_congr {f g : N → M} (hfg : ∀ n, p n = true → f n = g n) (v : Value N)
    (h : v.numbers p = true) : v.map f = v.map g := by
  have hf : v.convert (fun n => some (g n)) = some (v.map f) :=
    convert_eq_map (fun n hn => congrArg some (hfg n hn).symm) v h
  rw [convert_eq_map (fun _ _ => rfl) v h] at hf
  exact (Option.some.inj hf).symm

/-- A conversion undoes what it is an inverse of. -/
theorem convert_map {f : M → Option N} {g : N → M} (h : ∀ n, f (g n) = some n) (v : Value N) :
    (v.map g).convert f = some v := by
  induction v using induct with
  | null | bool | string => rfl
  | number n =>
    show (f (g n)).map number = some (number n)
    rw [h n]
    rfl
  | array items ih =>
    have hitems : (items.map fun v => convert f (v.map g)).mapM id = some (items.map id) := by
      rw [List.mapM_map]
      exact mapM_eq_some_map ih
    rw [map_array, convert_array, List.map_map]
    show ((items.map fun v => convert f (v.map g)).mapM id).map array = _
    rw [hitems, List.map_id, Option.map_some]
  | object fields ih =>
    have hfields : (mapValues (fun v => convert f (v.map g)) fields).mapM
        (fun field => field.2.map fun v => (field.1, v)) = some (fields.map id) := by
      rw [mapValues, List.mapM_map]
      apply mapM_eq_some_map
      intro field hfield
      show ((convert f (field.2.map g)).map fun v => (field.1, v)) = some field
      rw [ih field hfield]
      rfl
    rw [map_object, convert_object, mapValues_mapValues, hfields, List.map_id, Option.map_some]

end Value

/-! ## Maps -/

section Maps

variable {α γ : Type*}

/-- A row put into a map, whose rows are kept in the order of their keys. -/
def put (key : String) (value : α) : List (String × α) → List (String × α)
  | [] => [(key, value)]
  | row :: rows =>
    if key < row.1 then (key, value) :: row :: rows
    else if key = row.1 then (key, value) :: rows
    else row :: put key value rows

/-- The map that members make: the later of two with one key counts. -/
def toMap (fields : List (String × α)) : List (String × α) :=
  fields.foldl (fun rows field => put field.1 field.2 rows) []

/-- The rows are in order, and no two have one key. -/
def IsMap (rows : List (String × α)) : Prop := rows.Pairwise fun a b => a.1 < b.1

variable {rows : List (String × α)}

theorem mem_put {key : String} {value : α} {row : String × α} (h : row ∈ put key value rows) :
    row = (key, value) ∨ row ∈ rows := by
  induction rows with
  | nil => exact .inl (List.mem_singleton.mp h)
  | cons first rows ih =>
    unfold put at h
    split at h
    · exact List.mem_cons.mp h
    · split at h
      · rcases List.mem_cons.mp h with rfl | hrow
        · exact .inl rfl
        · exact .inr (List.mem_cons_of_mem first hrow)
      · rcases List.mem_cons.mp h with rfl | hrow
        · exact .inr List.mem_cons_self
        · exact (ih hrow).imp_right (List.mem_cons_of_mem first)

theorem IsMap.put (h : IsMap rows) (key : String) (value : α) : IsMap (put key value rows) := by
  induction rows with
  | nil => exact List.pairwise_singleton _ _
  | cons first rows ih =>
    obtain ⟨hfirst, hrows⟩ := List.pairwise_cons.mp h
    unfold Json.put
    split
    -- before the first row
    · rename_i hlt
      apply List.pairwise_cons.mpr ⟨?_, h⟩
      intro row hrow
      rcases List.mem_cons.mp hrow with rfl | hrow
      · exact hlt
      · exact hlt.trans (hfirst row hrow)
    · split
      -- in place of the first row
      · rename_i heq
        apply List.pairwise_cons.mpr ⟨?_, hrows⟩
        intro row hrow
        show key < row.1
        rw [heq]
        exact hfirst row hrow
      -- somewhere after it
      · rename_i hle hne
        apply List.pairwise_cons.mpr ⟨?_, ih hrows⟩
        intro row hrow
        rcases mem_put hrow with rfl | hrow
        · exact lt_of_le_of_ne (not_lt.mp hle) (Ne.symm hne)
        · exact hfirst row hrow

theorem isMap_toMap (fields : List (String × α)) : IsMap (toMap fields) := by
  have hfold : ∀ rows, IsMap rows →
      IsMap (fields.foldl (fun rows field => Json.put field.1 field.2 rows) rows) := by
    induction fields with
    | nil => exact fun rows h => h
    | cons field fields ih => exact fun rows h => ih _ (h.put field.1 field.2)
  exact hfold [] List.Pairwise.nil

theorem put_last {key : String} {value : α} (h : ∀ row ∈ rows, row.1 < key) :
    put key value rows = rows ++ [(key, value)] := by
  induction rows with
  | nil => rfl
  | cons row rows ih =>
    have hrow := h row List.mem_cons_self
    rw [put, if_neg hrow.not_gt, if_neg hrow.ne',
      ih fun row' hrow' => h row' (List.mem_cons_of_mem row hrow')]
    rfl

/-- **A map is the map of its rows.** -/
theorem IsMap.toMap_eq (h : IsMap rows) : toMap rows = rows := by
  -- the rows so far all come before those that follow
  have hfold : ∀ done rest : List (String × α), IsMap (done ++ rest) →
      rest.foldl (fun rows field => Json.put field.1 field.2 rows) done = done ++ rest := by
    intro done rest
    induction rest generalizing done with
    | nil => exact fun _ => (List.append_nil done).symm
    | cons row rest ih =>
      intro hmap
      have hlast : ∀ row' ∈ done, row'.1 < row.1 := fun row' hrow' =>
        (List.pairwise_append.mp hmap).2.2 row' hrow' row List.mem_cons_self
      have happend : done ++ row :: rest = (done ++ [row]) ++ rest := by simp
      rw [happend] at hmap ⊢
      rw [List.foldl_cons, put_last hlast]
      exact ih _ hmap
  exact hfold [] rows h

theorem toMap_toMap (fields : List (String × α)) : toMap (toMap fields) = toMap fields :=
  (isMap_toMap fields).toMap_eq

theorem mapValues_put (f : α → γ) (key : String) (value : α) (rows : List (String × α)) :
    mapValues f (put key value rows) = put key (f value) (mapValues f rows) := by
  induction rows with
  | nil => rfl
  | cons row rows ih =>
    unfold mapValues at ih ⊢
    rw [put, List.map_cons, put]
    split
    · rfl
    · split
      · rfl
      · rw [List.map_cons, ih]

/-- **Which member counts does not depend on the values.** -/
theorem mapValues_toMap (f : α → γ) (fields : List (String × α)) :
    mapValues f (toMap fields) = toMap (mapValues f fields) := by
  have hfold : ∀ rows,
      mapValues f (fields.foldl (fun rows field => put field.1 field.2 rows) rows) =
        (mapValues f fields).foldl (fun rows field => put field.1 field.2 rows)
          (mapValues f rows) := by
    induction fields with
    | nil => exact fun _ => rfl
    | cons field fields ih =>
      intro rows
      rw [List.foldl_cons, ih, mapValues_put]
      rfl
  exact hfold []

theorem mem_toMap {fields : List (String × α)} {row : String × α} (h : row ∈ toMap fields) :
    row ∈ fields := by
  have hfold : ∀ (fields rows : List (String × α)),
      row ∈ fields.foldl (fun rows field => put field.1 field.2 rows) rows →
      row ∈ rows ∨ row ∈ fields := by
    intro fields
    induction fields with
    | nil => exact fun rows h => .inl h
    | cons field fields ih =>
      intro rows h
      rcases ih _ h with hput | hrest
      · rcases mem_put hput with rfl | hrow
        · exact .inr List.mem_cons_self
        · exact .inl hrow
      · exact .inr (List.mem_cons_of_mem field hrest)
  exact (hfold fields [] h).resolve_left List.not_mem_nil

end Maps

/-! ## What objects mean -/

namespace Value

def collapse : Value N → Value N :=
  fold ⟨null, bool, number, string, array, fun fields => object (toMap fields)⟩

theorem collapse_array (items : List (Value N)) :
    (array items).collapse = array (items.map collapse) := fold_array _ items

theorem collapse_object (fields : List (String × Value N)) :
    (object fields).collapse = object (toMap (mapValues collapse fields)) := fold_object _ fields

/-- **Collapsing does not look at the numbers.** -/
theorem map_collapse (f : N → M) (v : Value N) : v.collapse.map f = (v.map f).collapse := by
  induction v using induct with
  | null | bool | string | number => rfl
  | array items ih =>
    rw [collapse_array, map_array, map_array, collapse_array, List.map_map, List.map_map]
    exact congrArg array (List.map_congr_left ih)
  | object fields ih =>
    rw [collapse_object, map_object, map_object, collapse_object, mapValues_toMap,
      mapValues_mapValues, mapValues_mapValues]
    exact congrArg (fun rows => object (toMap rows)) (mapValues_congr ih)

theorem collapse_collapse (v : Value N) : v.collapse.collapse = v.collapse := by
  induction v using induct with
  | null | bool | string | number => rfl
  | array items ih =>
    rw [collapse_array, collapse_array, List.map_map]
    exact congrArg array (List.map_congr_left ih)
  | object fields ih =>
    rw [collapse_object, collapse_object, mapValues_toMap, toMap_toMap, mapValues_mapValues,
      mapValues_congr ih]

theorem numbers_collapse {p : N → Bool} {v : Value N} (h : v.numbers p = true) :
    v.collapse.numbers p = true := by
  induction v using induct with
  | null | bool | string | number => exact h
  | array items ih =>
    rw [numbers_array] at h
    rw [collapse_array, numbers_array]
    intro w hw
    obtain ⟨v, hv, rfl⟩ := List.mem_map.mp hw
    exact ih v hv (h v hv)
  | object fields ih =>
    rw [numbers_object] at h
    rw [collapse_object, numbers_object]
    intro row hrow
    obtain ⟨field, hfield, rfl⟩ := List.mem_map.mp (mem_toMap hrow)
    exact ih field hfield (h field hfield)

theorem numbers_map {p : N → Bool} {q : M → Bool} {f : N → M}
    (hpq : ∀ n, p n = true → q (f n) = true) (v : Value N) (h : v.numbers p = true) :
    (v.map f).numbers q = true := by
  induction v using induct with
  | null | bool | string => exact h
  | number n => exact hpq n h
  | array items ih =>
    rw [numbers_array] at h
    rw [map_array, numbers_array]
    intro w hw
    obtain ⟨v, hv, rfl⟩ := List.mem_map.mp hw
    exact ih v hv (h v hv)
  | object fields ih =>
    rw [numbers_object] at h
    rw [map_object, numbers_object]
    intro row hrow
    obtain ⟨field, hfield, rfl⟩ := List.mem_map.mp hrow
    exact ih field hfield (h field hfield)

end Value

end ServiceRuntime.Json
