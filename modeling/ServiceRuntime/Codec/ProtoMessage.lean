import ServiceRuntime.Codec.ProtoWire

/-!
# Protocol Buffers Messages

A message is read field by field into a value that takes the fields it knows. What is written
first is taken first (`decodeFields_encode_append`), so that a message which is written one field
after the other can be read back the same way; a field that is empty is left out in writing.
-/

namespace ServiceRuntime.Codec

/-! ## The fields of a message -/

/-- The fields of a message; every field takes a byte, so the length is enough `fuel`. -/
def readFields : Nat → List UInt8 → Option (List Field)
  | _, [] => some []
  | 0, _ :: _ => none
  | fuel + 1, b :: bs =>
    (consumeField (b :: bs)).bind fun (f, rest) => (readFields fuel rest).map (f :: ·)

def fields (bs : List UInt8) : Option (List Field) := readFields bs.length bs

def encodeFields (fs : List Field) : List UInt8 := fs.flatMap Field.encode

variable {bs : List UInt8}

theorem readFields_of_le {fuel fuel' : Nat} (h : bs.length ≤ fuel) (h' : bs.length ≤ fuel') :
    readFields fuel bs = readFields fuel' bs := by
  induction fuel generalizing fuel' bs with
  | zero =>
    cases bs with
    | nil => cases fuel' <;> rfl
    | cons b bs => simp at h
  | succ fuel ih =>
    cases bs with
    | nil => cases fuel' <;> rfl
    | cons b bs =>
      rw [List.length_cons] at h h'
      obtain ⟨fuel'', rfl⟩ := Nat.exists_eq_succ_of_ne_zero (show fuel' ≠ 0 by omega)
      unfold readFields
      refine Option.bind_congr fun ⟨f, rest⟩ hfield => ?_
      have hlt := length_lt_of_consumeField hfield
      rw [List.length_cons] at hlt
      show (readFields fuel rest).map _ = (readFields fuel'' rest).map _
      rw [ih (show rest.length ≤ fuel by omega) (show rest.length ≤ fuel'' by omega)]

theorem fields_of_consumeField {rest : List UInt8} {f : Field}
    (h : consumeField bs = some (f, rest)) : fields bs = (fields rest).map (f :: ·) := by
  have hlt := length_lt_of_consumeField h
  cases bs with
  | nil => simp at hlt
  | cons b bs =>
    rw [List.length_cons] at hlt
    unfold fields
    rw [List.length_cons, readFields, h, Option.bind_some]
    dsimp only
    rw [readFields_of_le (show rest.length ≤ bs.length by omega) le_rfl]

theorem fields_encode_append (f : Field) (after : List UInt8) :
    fields (f.encode ++ after) = (fields after).map (f :: ·) :=
  fields_of_consumeField (consumeField_encode f after)

theorem fields_encodeFields (fs : List Field) : fields (encodeFields fs) = some fs := by
  induction fs with
  | nil => rfl
  | cons f fs ih =>
    have hcons : encodeFields (f :: fs) = f.encode ++ encodeFields fs := rfl
    rw [hcons, fields_encode_append, ih]
    rfl

/-- Writing the fields of a message again takes no more bytes than the message. -/
theorem length_encodeFields_le {fs : List Field} (h : fields bs = some fs) :
    (encodeFields fs).length ≤ bs.length := by
  induction fs generalizing bs with
  | nil => simp [encodeFields]
  | cons f fs ih =>
    cases bs with
    | nil => cases h
    | cons b bs =>
      unfold fields at h
      rw [List.length_cons, readFields] at h
      obtain ⟨⟨f', rest⟩, hfield, h⟩ := Option.bind_eq_some_iff.mp h
      obtain ⟨fs', hrest, heq⟩ := Option.map_eq_some_iff.mp h
      cases heq
      have hlt := length_lt_of_consumeField hfield
      rw [List.length_cons] at hlt
      -- the fuel of the rest was that of the whole, which makes no difference
      have hfields : fields rest = some fs := by
        rw [← hrest]
        exact readFields_of_le le_rfl (by omega)
      have hle := length_encode_le hfield
      have hcons : encodeFields (f :: fs) = f.encode ++ encodeFields fs := rfl
      rw [hcons, List.length_append]
      have := ih hfields
      omega

/-! ## Reading a message field by field -/

/-- Read a message into `acc`, which takes the fields one by one. -/
def decodeFields {α : Type*} (take : α → Field → Option α) (acc : α) (bs : List UInt8) : Option α :=
  (fields bs).bind fun fs => fs.foldlM take acc

section Decode

variable {α : Type*} (take : α → Field → Option α)

theorem decodeFields_encode_append (acc : α) (f : Field) (after : List UInt8) :
    decodeFields take acc (f.encode ++ after) =
      (take acc f).bind fun acc' => decodeFields take acc' after := by
  unfold decodeFields
  rw [fields_encode_append]
  cases fields after with
  | none => cases take acc f <;> rfl
  | some fs => rfl

theorem decodeFields_encodeFields (acc : α) (fs : List Field) :
    decodeFields take acc (encodeFields fs) = fs.foldlM take acc := by
  unfold decodeFields
  rw [fields_encodeFields, Option.bind_some]

/-- What grows with each field by no more than the bytes of the field grows by no more than the
    bytes of the message. -/
theorem decodeFields_le (size : α → Nat)
    (htake : ∀ {acc acc' : α} {f : Field}, take acc f = some acc' →
      size acc' ≤ size acc + f.encode.length)
    {acc acc' : α} {bs : List UInt8} (h : decodeFields take acc bs = some acc') :
    size acc' ≤ size acc + bs.length := by
  obtain ⟨fs, hfs, hfold⟩ := Option.bind_eq_some_iff.mp h
  have hfields : size acc' ≤ size acc + (encodeFields fs).length := by
    clear hfs h
    induction fs generalizing acc with
    | nil =>
      cases hfold
      simp [encodeFields]
    | cons f fs ih =>
      rw [List.foldlM_cons] at hfold
      obtain ⟨middle, hf, hfs⟩ := Option.bind_eq_some_iff.mp hfold
      have hhead := htake hf
      have htail := ih hfs
      have hcons : encodeFields (f :: fs) = f.encode ++ encodeFields fs := rfl
      rw [hcons, List.length_append]
      omega
  have := length_encodeFields_le hfs
  omega

end Decode

/-! ## Values of fields -/

def Field.content (f : Field) : Option (List UInt8) :=
  if f.typ = .bytes then (consumeBytes f.raw).map Prod.fst else none

def Field.number (f : Field) : Option Nat :=
  if f.typ = .varint then (consumeVarint f.raw).map Prod.fst else none

theorem Field.typ_of_content {f : Field} {content : List UInt8} (h : f.content = some content) :
    f.typ = .bytes := by
  unfold Field.content at h
  split at h
  · assumption
  · cases h

theorem Field.length_content_le {f : Field} {content : List UInt8} (h : f.content = some content) :
    (appendTag f.num .bytes).length + (appendBytes content).length ≤ f.encode.length := by
  have htyp := Field.typ_of_content h
  unfold Field.content at h
  rw [if_pos htyp] at h
  obtain ⟨⟨content', rest⟩, hread, rfl⟩ := Option.map_eq_some_iff.mp h
  have hle := length_appendBytes_le hread
  unfold Field.encode
  rw [htyp, List.length_append]
  dsimp only at hle ⊢
  omega

theorem complete_appendBytes (num : Nat) (h : bs.length < 2 ^ 64) :
    consumeFieldValue num .bytes (appendBytes bs) = some ((), []) := by
  have hread := consumeBytes_appendBytes h []
  rw [List.append_nil] at hread
  unfold consumeFieldValue
  rw [if_neg (by decide)]
  show consumeBytes.skip _ = _
  unfold Reader.skip
  rw [hread]
  rfl

theorem complete_appendVarint (num : Nat) {v : Nat} (h : v < 2 ^ 64) :
    consumeFieldValue num .varint (appendVarint v) = some ((), []) := by
  have hread := consumeVarint_appendVarint h []
  rw [List.append_nil] at hread
  unfold consumeFieldValue
  rw [if_neg (by decide)]
  show consumeVarint.skip _ = _
  unfold Reader.skip
  rw [hread]
  rfl

def ValidNumber (num : Nat) : Prop := 1 ≤ num ∧ num ≤ maxValidNumber

instance (num : Nat) : Decidable (ValidNumber num) := by unfold ValidNumber; infer_instance

def Field.ofBytes (num : Nat) (hnum : ValidNumber num) (bs : List UInt8) (h : bs.length < 2 ^ 64) :
    Field := ⟨num, .bytes, appendBytes bs, hnum.1, hnum.2, complete_appendBytes num h⟩

def Field.ofVarint (num : Nat) (hnum : ValidNumber num) (v : Nat) (h : v < 2 ^ 64) : Field :=
  ⟨num, .varint, appendVarint v, hnum.1, hnum.2, complete_appendVarint num h⟩

@[simp] theorem Field.num_ofBytes (num : Nat) (hnum : ValidNumber num) (bs : List UInt8)
    (h : bs.length < 2 ^ 64) : (Field.ofBytes num hnum bs h).num = num := rfl

@[simp] theorem Field.num_ofVarint (num : Nat) (hnum : ValidNumber num) (v : Nat)
    (h : v < 2 ^ 64) : (Field.ofVarint num hnum v h).num = num := rfl

@[simp] theorem Field.content_ofBytes (num : Nat) (hnum : ValidNumber num) (bs : List UInt8)
    (h : bs.length < 2 ^ 64) : (Field.ofBytes num hnum bs h).content = some bs := by
  have hread := consumeBytes_appendBytes h []
  rw [List.append_nil] at hread
  have htyp : (Field.ofBytes num hnum bs h).typ = .bytes := rfl
  rw [Field.content, if_pos htyp]
  show (consumeBytes (appendBytes bs)).map Prod.fst = _
  rw [hread]
  rfl

@[simp] theorem Field.number_ofVarint (num : Nat) (hnum : ValidNumber num) (v : Nat)
    (h : v < 2 ^ 64) : (Field.ofVarint num hnum v h).number = some v := by
  have hread := consumeVarint_appendVarint h []
  rw [List.append_nil] at hread
  have htyp : (Field.ofVarint num hnum v h).typ = .varint := rfl
  rw [Field.number, if_pos htyp]
  show (consumeVarint (appendVarint v)).map Prod.fst = _
  rw [hread]
  rfl

/-! ## Fields that are left out when empty -/

/-- A field with contents, unless they are empty. -/
def appendBytesField (num : Nat) (bs : List UInt8) : List UInt8 :=
  if bs = [] then [] else appendTag num .bytes ++ appendBytes bs

/-- A field with a number, unless it is zero. -/
def appendVarintField (num : Nat) (v : Nat) : List UInt8 :=
  if v = 0 then [] else appendTag num .varint ++ appendVarint v

theorem length_appendBytesField_le (num : Nat) (bs : List UInt8) :
    (appendBytesField num bs).length ≤ (appendTag num .bytes).length + (appendBytes bs).length := by
  unfold appendBytesField
  split
  · exact Nat.zero_le _
  · rw [List.length_append]

theorem length_le_appendBytesField (num : Nat) (bs : List UInt8) :
    bs.length ≤ (appendBytesField num bs).length := by
  unfold appendBytesField
  split
  · rename_i h
    rw [h]
  · unfold appendBytes
    simp only [List.length_append]
    omega

section Chunks

variable {α : Type*} (take : α → Field → Option α)

variable {acc acc' : α}

theorem decodeFields_message {num : Nat} (hnum : ValidNumber num) {bs : List UInt8}
    (h : bs.length < 2 ^ 64) (htake : take acc (Field.ofBytes num hnum bs h) = some acc')
    (after : List UInt8) :
    decodeFields take acc (appendTag num .bytes ++ appendBytes bs ++ after) =
      decodeFields take acc' after := by
  have hencode : appendTag num .bytes ++ appendBytes bs = (Field.ofBytes num hnum bs h).encode := rfl
  rw [hencode, decodeFields_encode_append, htake, Option.bind_some]

/-- A field that is left out changes nothing, so it must be empty already. -/
theorem decodeFields_bytesField {num : Nat} (hnum : ValidNumber num) {bs : List UInt8}
    (h : bs.length < 2 ^ 64) (htake : take acc (Field.ofBytes num hnum bs h) = some acc')
    (hempty : bs = [] → acc = acc') (after : List UInt8) :
    decodeFields take acc (appendBytesField num bs ++ after) = decodeFields take acc' after := by
  unfold appendBytesField
  split
  · rename_i hnil
    rw [hempty hnil, List.nil_append]
  · exact decodeFields_message take hnum h htake after

theorem decodeFields_varintField {num : Nat} (hnum : ValidNumber num) {v : Nat} (h : v < 2 ^ 64)
    (htake : take acc (Field.ofVarint num hnum v h) = some acc') (hzero : v = 0 → acc = acc')
    (after : List UInt8) :
    decodeFields take acc (appendVarintField num v ++ after) = decodeFields take acc' after := by
  unfold appendVarintField
  split
  · rename_i hv
    rw [hzero hv, List.nil_append]
  · have hencode : appendTag num .varint ++ appendVarint v = (Field.ofVarint num hnum v h).encode :=
      rfl
    rw [hencode, decodeFields_encode_append, htake, Option.bind_some]

end Chunks

end ServiceRuntime.Codec
