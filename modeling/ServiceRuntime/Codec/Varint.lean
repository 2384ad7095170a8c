import ServiceRuntime.Codec.Reader

/-!
# Base-128 Varints

Seven bits a byte, least significant first, with the high bit set on every byte but the last. A
varint holds 64 bits, so it has at most ten bytes, and the tenth is 0 or 1. Writing is minimal;
reading accepts leading zero groups as well.
-/

namespace ServiceRuntime.Codec

/-- The bytes of `v`, when `more` further bytes may follow the next one. -/
def varintBytes : Nat → Nat → List UInt8
  | 0, v => [UInt8.ofNat v]
  | more + 1, v =>
    if v < 128 then [UInt8.ofNat v]
    else UInt8.ofNat (v % 128 + 128) :: varintBytes more (v / 128)

def appendVarint (v : Nat) : List UInt8 := varintBytes 9 v

/-- Read a varint, when `more` further bytes may follow the next one. -/
def readVarint : Nat → Reader Nat
  | _, [] => none
  | 0, b :: rest => if b.toNat < 2 then some (b.toNat, rest) else none
  | more + 1, b :: rest =>
    if b.toNat < 128 then some (b.toNat, rest)
    else (readVarint more rest).map fun (v, rest') => (b.toNat - 128 + 128 * v, rest')

def consumeVarint : Reader Nat := readVarint 9

/-! ## Reading back -/

theorem toNat_byte {n : Nat} (h : n < 256) : (UInt8.ofNat n).toNat = n :=
  UInt8.toNat_ofNat_of_lt' h

variable {v : Nat}

theorem readVarint_varintBytes (more : Nat) (hv : v < 2 * 128 ^ more) (after : List UInt8) :
    readVarint more (varintBytes more v ++ after) = some (v, after) := by
  induction more generalizing v with
  | zero =>
    have hv : v < 2 := hv
    have htoNat : (UInt8.ofNat v).toNat = v := toNat_byte (by omega)
    unfold varintBytes readVarint
    rw [List.singleton_append]
    dsimp only
    rw [htoNat, if_pos hv]
  | succ more ih =>
    unfold varintBytes
    split
    · rename_i hsmall
      have htoNat : (UInt8.ofNat v).toNat = v := toNat_byte (by omega)
      rw [List.singleton_append, readVarint, htoNat, if_pos hsmall]
    -- the rest of the bytes are those of the quotient
    · have htoNat : (UInt8.ofNat (v % 128 + 128)).toNat = v % 128 + 128 :=
        toNat_byte (by omega)
      have hquotient : v / 128 < 2 * 128 ^ more := by
        rw [Nat.div_lt_iff_lt_mul (by decide)]
        calc v < 2 * 128 ^ (more + 1) := hv
          _ = 2 * 128 ^ more * 128 := by rw [pow_succ, mul_assoc]
      rw [List.cons_append, readVarint, htoNat, if_neg (by omega), ih hquotient]
      simp only [Option.map_some, Option.some.injEq, Prod.mk.injEq, and_true]
      omega

theorem consumeVarint_appendVarint (hv : v < 2 ^ 64) (after : List UInt8) :
    consumeVarint (appendVarint v ++ after) = some (v, after) :=
  readVarint_varintBytes 9 (by norm_num at hv ⊢; exact hv) after

/-! ## What is taken -/

theorem determined_readVarint (more : Nat) : Reader.Determined (readVarint more) := by
  intro bs v rest h
  fun_induction readVarint more bs generalizing v rest with
  | case2 b bs hsmall | case4 more b bs hsmall =>
    cases h
    refine ⟨[b], by simp, rfl, fun after => ?_⟩
    rw [List.singleton_append, readVarint, if_pos hsmall]
  | case5 more b bs hlarge ih =>
    obtain ⟨⟨v', rest'⟩, hrest, heq⟩ := Option.map_eq_some_iff.mp h
    cases heq
    obtain ⟨taken, -, rfl, hread⟩ := ih hrest
    refine ⟨b :: taken, by simp, rfl, fun after => ?_⟩
    rw [List.cons_append, readVarint, if_neg hlarge, hread]
    rfl
  | case1 | case3 => cases h

theorem determined_consumeVarint : Reader.Determined consumeVarint := determined_readVarint 9

/-- Writing a number again takes no more bytes than it was read from. -/
theorem length_varintBytes_le {more : Nat} {bs rest : List UInt8}
    (h : readVarint more bs = some (v, rest)) :
    (varintBytes more v).length + rest.length ≤ bs.length := by
  fun_induction readVarint more bs generalizing v with
  | case2 b bs hsmall | case4 more b bs hsmall =>
    cases h
    simp [varintBytes, hsmall, Nat.add_comm]
  | case5 more b bs _ ih =>
    obtain ⟨⟨v', rest'⟩, hrest, heq⟩ := Option.map_eq_some_iff.mp h
    cases heq
    have hle := ih hrest
    unfold varintBytes
    split
    -- a varint padded with zeros, which is written shorter
    · rw [List.length_singleton, List.length_cons]
      omega
    · have hbyte := b.toNat_lt
      have hquotient : (b.toNat - 128 + 128 * v') / 128 = v' := by omega
      rw [List.length_cons, List.length_cons, hquotient]
      omega
  | case1 | case3 => cases h

theorem length_appendVarint_le {bs rest : List UInt8} (h : consumeVarint bs = some (v, rest)) :
    (appendVarint v).length + rest.length ≤ bs.length := length_varintBytes_le h

theorem varintBytes_eq_append (more v : Nat) :
    ∃ front last, varintBytes more v = front ++ [last] ∧ ∀ b ∈ front, 128 ≤ b.toNat := by
  induction more generalizing v with
  | zero => exact ⟨[], UInt8.ofNat v, rfl, by simp⟩
  | succ more ih =>
    unfold varintBytes
    split
    · exact ⟨[], UInt8.ofNat v, rfl, by simp⟩
    · obtain ⟨front, last, hrest, hfront⟩ := ih (v / 128)
      refine ⟨UInt8.ofNat (v % 128 + 128) :: front, last, by rw [hrest]; rfl, ?_⟩
      intro b hb
      rcases List.mem_cons.mp hb with rfl | hb
      · rw [toNat_byte (by omega)]
        omega
      · exact hfront b hb

end ServiceRuntime.Codec
