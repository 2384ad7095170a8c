import ServiceRuntime.Codec.Varint

/-!
# The Protocol Buffers Wire Format

A message is a sequence of fields, each a tag and a value. The tag is a varint of the field number
and the wire type; the type says how the value is delimited. A reader that does not know a field
can therefore skip it, and keeps it.

A `Field` here is a field as such a reader keeps it: its number, its type and the bytes of its
value, which are complete. A written field is read back (`consumeField_encode`), whatever it is
and whatever follows.
-/

namespace ServiceRuntime.Codec

/-! ## Tags -/

inductive WireType where
  | varint
  | fixed64
  | bytes
  | startGroup
  | endGroup
  | fixed32
  deriving DecidableEq

namespace WireType

def code : WireType → Nat
  | varint => 0
  | fixed64 => 1
  | bytes => 2
  | startGroup => 3
  | endGroup => 4
  | fixed32 => 5

def ofCode : Nat → Option WireType
  | 0 => some varint
  | 1 => some fixed64
  | 2 => some bytes
  | 3 => some startGroup
  | 4 => some endGroup
  | 5 => some fixed32
  | _ => none

theorem code_lt (t : WireType) : t.code < 8 := by
  cases t <;> decide

@[simp] theorem ofCode_code (t : WireType) : ofCode t.code = some t := by
  cases t <;> rfl

theorem code_of_ofCode {n : Nat} {t : WireType} (h : ofCode n = some t) : t.code = n := by
  unfold ofCode at h
  split at h <;> cases h <;> rfl

end WireType

def maxValidNumber : Nat := 2 ^ 29 - 1

def appendTag (num : Nat) (typ : WireType) : List UInt8 := appendVarint (num * 8 + typ.code)

/-- Read a tag; the number fits 31 bits and is not zero. -/
def consumeTag : Reader (Nat × WireType) := fun bs =>
  (consumeVarint bs).bind fun (v, rest) =>
    if 1 ≤ v / 8 ∧ v / 8 < 2 ^ 31 then (WireType.ofCode (v % 8)).map fun typ => ((v / 8, typ), rest)
    else none

variable {bs rest : List UInt8} {num : Nat} {typ : WireType}

theorem consumeTag_eq_some (h : consumeTag bs = some ((num, typ), rest)) :
    consumeVarint bs = some (num * 8 + typ.code, rest) ∧ 1 ≤ num ∧ num < 2 ^ 31 := by
  unfold consumeTag at h
  obtain ⟨⟨v, rest'⟩, hvarint, h⟩ := Option.bind_eq_some_iff.mp h
  dsimp only at h
  split at h
  · rename_i hnum
    obtain ⟨typ', htyp, heq⟩ := Option.map_eq_some_iff.mp h
    cases heq
    refine ⟨?_, hnum⟩
    rw [hvarint, WireType.code_of_ofCode htyp]
    congr 2
    omega
  · cases h

theorem consumeTag_of_consumeVarint (h : consumeVarint bs = some (num * 8 + typ.code, rest))
    (hpos : 1 ≤ num) (hlt : num < 2 ^ 31) : consumeTag bs = some ((num, typ), rest) := by
  have hcode := typ.code_lt
  have hdiv : (num * 8 + typ.code) / 8 = num := by omega
  have hmod : (num * 8 + typ.code) % 8 = typ.code := by omega
  unfold consumeTag
  rw [h, Option.bind_some]
  dsimp only
  rw [hdiv, hmod, if_pos ⟨hpos, hlt⟩, WireType.ofCode_code, Option.map_some]

theorem consumeTag_appendTag (typ : WireType) (hpos : 1 ≤ num) (hlt : num < 2 ^ 31)
    (after : List UInt8) : consumeTag (appendTag num typ ++ after) = some ((num, typ), after) := by
  have hcode := typ.code_lt
  exact consumeTag_of_consumeVarint (consumeVarint_appendVarint (by omega) after) hpos hlt

theorem determined_consumeTag : Reader.Determined consumeTag := by
  intro bs tag rest h
  obtain ⟨num, typ⟩ := tag
  obtain ⟨hvarint, hpos, hlt⟩ := consumeTag_eq_some h
  obtain ⟨taken, hne, rfl, hread⟩ := determined_consumeVarint hvarint
  exact ⟨taken, hne, rfl, fun after => consumeTag_of_consumeVarint (hread after) hpos hlt⟩

/-! ## Values -/

def consumeBytes : Reader (List UInt8) :=
  Reader.andThen consumeVarint fun n => Reader.exactly n

def appendBytes (bs : List UInt8) : List UInt8 := appendVarint bs.length ++ bs

theorem consumeBytes_appendBytes (h : bs.length < 2 ^ 64) (after : List UInt8) :
    consumeBytes (appendBytes bs ++ after) = some (bs, after) := by
  unfold consumeBytes Reader.andThen appendBytes
  rw [List.append_assoc, consumeVarint_appendVarint h]
  exact Reader.exactly_append bs after

theorem length_appendBytes_le {content : List UInt8} (h : consumeBytes bs = some (content, rest)) :
    (appendBytes content).length + rest.length ≤ bs.length := by
  obtain ⟨⟨n, middle⟩, hvarint, hexactly⟩ := Option.bind_eq_some_iff.mp h
  obtain ⟨rfl, rfl⟩ := Reader.exactly_eq_some hexactly
  have hle := length_appendVarint_le hvarint
  unfold appendBytes
  rw [List.length_append] at hle ⊢
  omega

theorem determined_consumeBytes : Reader.Determined consumeBytes := by
  refine determined_consumeVarint.andThen fun n bs b rest h => ?_
  obtain ⟨hlength, hbs⟩ := Reader.exactly_eq_some h
  refine ⟨b, hbs, fun after => ?_⟩
  rw [← hlength]
  exact Reader.exactly_append b after

def skipScalar : WireType → Reader Unit
  | .varint => consumeVarint.skip
  | .fixed64 => (Reader.exactly 8).skip
  | .bytes => consumeBytes.skip
  | .fixed32 => (Reader.exactly 4).skip
  | .startGroup => fun _ => none
  | .endGroup => fun _ => none

theorem determined_skipScalar (typ : WireType) : Reader.Determined (skipScalar typ) := by
  cases typ with
  | varint =>
    show Reader.Determined consumeVarint.skip
    exact determined_consumeVarint.skip
  | fixed64 =>
    show Reader.Determined (Reader.exactly 8).skip
    exact (Reader.determined_exactly (by decide)).skip
  | bytes =>
    show Reader.Determined consumeBytes.skip
    exact determined_consumeBytes.skip
  | fixed32 =>
    show Reader.Determined (Reader.exactly 4).skip
    exact (Reader.determined_exactly (by decide)).skip
  | startGroup | endGroup => exact fun _ _ _ h => by cases h

/-! ### Groups -/

def recursionLimit : Nat := 10000

/-- What follows a tag inside of groups. `opened` are the numbers of the groups that are open, the
    innermost first; the result are those that are open afterwards. -/
def groupItem (opened : List Nat) (num : Nat) : WireType → Reader (List Nat)
  | .endGroup => fun bs =>
    match opened with
    | [] => none
    | innermost :: outer => if num = innermost then some (outer, bs) else none
  | .startGroup => fun bs =>
    if recursionLimit < opened.length then none else some (num :: opened, bs)
  | typ => fun bs => (skipScalar typ bs).map fun (_, rest) => (opened, rest)

def groupStep (opened : List Nat) : Reader (List Nat) :=
  consumeTag.andThen fun (num, typ) => groupItem opened num typ

/-- Skip to the end of the outermost open group. Every round takes a tag, so the length of the
    input is enough `fuel`. -/
def skipGroup : Nat → List Nat → Reader Unit
  | 0, _, _ => none
  | fuel + 1, opened, bs =>
    (groupStep opened bs).bind fun (opened', rest) =>
      if opened' = [] then some ((), rest) else skipGroup fuel opened' rest

theorem groupItem_eq_some {opened opened' : List Nat}
    (h : groupItem opened num typ bs = some (opened', rest)) :
    ∃ taken, bs = taken ++ rest ∧
      ∀ after, groupItem opened num typ (taken ++ after) = some (opened', after) := by
  -- the value of a field that opens or closes nothing
  have hscalar : ∀ {typ : WireType}, (skipScalar typ bs).map (fun (_, rest) => (opened, rest)) =
      some (opened', rest) → ∃ taken, bs = taken ++ rest ∧ ∀ after,
      (skipScalar typ (taken ++ after)).map (fun (_, rest) => (opened, rest)) =
        some (opened', after) := by
    intro typ h
    obtain ⟨⟨value, rest'⟩, hskip, heq⟩ := Option.map_eq_some_iff.mp h
    cases heq
    obtain ⟨taken, -, rfl, hread⟩ := determined_skipScalar typ hskip
    exact ⟨taken, rfl, fun after => by rw [hread]; rfl⟩
  cases typ with
  | endGroup =>
    cases opened with
    | nil => cases h
    | cons innermost outer =>
      unfold groupItem at h ⊢
      dsimp only at h ⊢
      split at h
      · rename_i hnum
        cases h
        exact ⟨[], rfl, fun after => if_pos hnum⟩
      · cases h
  | startGroup =>
    unfold groupItem at h ⊢
    dsimp only at h ⊢
    split at h
    · cases h
    · rename_i hdepth
      cases h
      exact ⟨[], rfl, fun after => if_neg hdepth⟩
  | varint | fixed64 | bytes | fixed32 => exact hscalar h

theorem determined_groupStep (opened : List Nat) : Reader.Determined (groupStep opened) :=
  determined_consumeTag.andThen fun _ _ _ _ h => groupItem_eq_some h

/-- A group is determined by its bytes, and their number is enough fuel to skip it. -/
theorem skipGroup_eq_some {fuel : Nat} {opened : List Nat}
    (h : skipGroup fuel opened bs = some ((), rest)) :
    ∃ taken, taken ≠ [] ∧ bs = taken ++ rest ∧ ∀ fuel' after, taken.length ≤ fuel' →
      skipGroup fuel' opened (taken ++ after) = some ((), after) := by
  -- each item takes at least one byte, so the length of what is skipped is fuel enough
  induction fuel generalizing opened bs with
  | zero => cases h
  | succ fuel ih =>
    unfold skipGroup at h
    obtain ⟨⟨opened', middle⟩, hstep, hnext⟩ := Option.bind_eq_some_iff.mp h
    obtain ⟨item, hne, rfl, hread⟩ := determined_groupStep opened hstep
    have hitemPos := List.length_pos_iff.mpr hne
    dsimp only at hnext
    split at hnext
    · rename_i hdone
      cases hnext
      refine ⟨item, hne, rfl, fun fuel' after hfuel => ?_⟩
      obtain ⟨fuel'', rfl⟩ := Nat.exists_eq_succ_of_ne_zero (show fuel' ≠ 0 by omega)
      rw [skipGroup, hread, Option.bind_some]
      exact if_pos hdone
    · rename_i hopen
      obtain ⟨taken, -, rfl, htaken⟩ := ih hnext
      refine ⟨item ++ taken, by simp [hne], by rw [List.append_assoc], fun fuel' after hfuel => ?_⟩
      rw [List.length_append] at hfuel
      obtain ⟨fuel'', rfl⟩ := Nat.exists_eq_succ_of_ne_zero (show fuel' ≠ 0 by omega)
      rw [skipGroup, List.append_assoc, hread, Option.bind_some]
      dsimp only
      rw [if_neg hopen]
      exact htaken fuel'' after (by omega)

def consumeFieldValue (num : Nat) (typ : WireType) : Reader Unit := fun bs =>
  if typ = .startGroup then skipGroup bs.length [num] bs else skipScalar typ bs

theorem determined_consumeFieldValue (num : Nat) (typ : WireType) :
    Reader.Determined (consumeFieldValue num typ) := by
  intro bs value rest h
  unfold consumeFieldValue at h ⊢
  split at h
  · rename_i hgroup
    obtain ⟨taken, hne, hbs, hread⟩ := skipGroup_eq_some h
    refine ⟨taken, hne, hbs, fun after => ?_⟩
    rw [if_pos hgroup]
    exact hread _ after (by simp)
  · rename_i hscalar
    obtain ⟨taken, hne, hbs, hread⟩ := determined_skipScalar typ h
    refine ⟨taken, hne, hbs, fun after => ?_⟩
    rw [if_neg hscalar]
    exact hread after

/-! ## Fields -/

/-- A field of a message: its number, its type, and the bytes of its value. -/
@[ext]
structure Field where
  num : Nat
  typ : WireType
  raw : List UInt8
  num_pos : 1 ≤ num
  num_le : num ≤ maxValidNumber
  /-- The bytes are one value of the type. -/
  complete : consumeFieldValue num typ raw = some ((), [])
  deriving DecidableEq

def Field.encode (f : Field) : List UInt8 := appendTag f.num f.typ ++ f.raw

def takenBytes (bs rest : List UInt8) : List UInt8 := bs.take (bs.length - rest.length)

theorem takenBytes_append (taken rest : List UInt8) : takenBytes (taken ++ rest) rest = taken := by
  unfold takenBytes
  rw [List.length_append, Nat.add_sub_cancel, List.take_left]

theorem complete_takenBytes {value : Unit} (h : consumeFieldValue num typ bs = some (value, rest)) :
    consumeFieldValue num typ (takenBytes bs rest) = some ((), []) := by
  obtain ⟨taken, -, rfl, hread⟩ := determined_consumeFieldValue num typ h
  rw [takenBytes_append]
  simpa using hread []

def consumeField : Reader Field := fun bs =>
  (consumeTag bs).bind fun ((num, typ), rest) =>
    if hnum : 1 ≤ num ∧ num ≤ maxValidNumber then
      match hvalue : consumeFieldValue num typ rest with
      | none => none
      | some (_, rest') =>
        some (⟨num, typ, takenBytes rest rest', hnum.1, hnum.2, complete_takenBytes hvalue⟩, rest')
    else none

theorem consumeField_eq_some {f : Field} (h : consumeField bs = some (f, rest)) :
    ∃ middle, consumeTag bs = some ((f.num, f.typ), middle) ∧ middle = f.raw ++ rest := by
  unfold consumeField at h
  obtain ⟨⟨⟨num, typ⟩, middle⟩, htag, h⟩ := Option.bind_eq_some_iff.mp h
  dsimp only at h
  split at h
  · split at h
    · cases h
    · rename_i rest' hvalue
      cases h
      obtain ⟨taken, -, rfl, -⟩ := determined_consumeFieldValue num typ hvalue
      exact ⟨_, htag, congrArg (· ++ rest) (takenBytes_append taken rest).symm⟩
  · cases h

/-- **A written field is read back**, whatever follows it. -/
theorem consumeField_encode (f : Field) (after : List UInt8) :
    consumeField (f.encode ++ after) = some (f, after) := by
  have hlt : f.num < 2 ^ 31 := lt_of_le_of_lt f.num_le (by decide)
  have htag := consumeTag_appendTag f.typ f.num_pos hlt (f.raw ++ after)
  have hvalue := (determined_consumeFieldValue f.num f.typ).append f.complete after
  unfold consumeField Field.encode
  rw [List.append_assoc, htag, Option.bind_some]
  dsimp only
  rw [dif_pos ⟨f.num_pos, f.num_le⟩]
  split
  · rename_i hnone
    rw [hnone] at hvalue
    cases hvalue
  · rename_i rest' hsome
    rw [hsome] at hvalue
    cases hvalue
    simp only [Option.some.injEq, Prod.mk.injEq, and_true]
    exact Field.ext rfl rfl (takenBytes_append f.raw after)

theorem length_lt_of_consumeField {f : Field} (h : consumeField bs = some (f, rest)) :
    rest.length < bs.length := by
  obtain ⟨middle, htag, rfl⟩ := consumeField_eq_some h
  have hlt := determined_consumeTag.length_lt htag
  rw [List.length_append] at hlt
  omega

theorem length_encode_le {f : Field} (h : consumeField bs = some (f, rest)) :
    f.encode.length + rest.length ≤ bs.length := by
  obtain ⟨middle, htag, rfl⟩ := consumeField_eq_some h
  have hle := length_appendVarint_le (consumeTag_eq_some htag).1
  unfold Field.encode appendTag
  rw [List.length_append] at hle ⊢
  omega

end ServiceRuntime.Codec
