import ServiceRuntime.Codec.FixedWidth
import ServiceRuntime.NatsBus.DeadLetterStore
import ServiceRuntime.NatsBus.ReplayOnce

/-!
# Dead Letters Are Replayed in Order

The name of a dead letter starts with the time at which it was made, down to the nanosecond, and
ends with its id. Times are written with fixed widths and ids are UUIDs, so names sort by time
first and by id second (`fileName_lt_iff`). A listing is in that order, and the replay goes through
it up to the first failure (`replay_oldest_prefix`).
-/

namespace ServiceRuntime.NatsBus

open Calendar Codec GoRfc3339 GoStrings GoUtf8 Storage Transition

/-! ## Timestamps -/

theorem nine_eq_decimal (n : Nat) : nine n = FixedWidth.decimal 9 n := by
  -- a digit of what is left below a power of ten is that digit of the number
  have h8 : n % 100000000 / 10000000 = n / 10000000 % 10 := Nat.mod_mul_right_div_self n 10000000 10
  have h7 : n % 10000000 / 1000000 = n / 1000000 % 10 := Nat.mod_mul_right_div_self n 1000000 10
  have h6 : n % 1000000 / 100000 = n / 100000 % 10 := Nat.mod_mul_right_div_self n 100000 10
  have h5 : n % 100000 / 10000 = n / 10000 % 10 := Nat.mod_mul_right_div_self n 10000 10
  have h4 : n % 10000 / 1000 = n / 1000 % 10 := Nat.mod_mul_right_div_self n 1000 10
  have h3 : n % 1000 / 100 = n / 100 % 10 := Nat.mod_mul_right_div_self n 100 10
  have h2 : n % 100 / 10 = n / 10 % 10 := Nat.mod_mul_right_div_self n 10 10
  simp [nine, FixedWidth.decimal, h8, h7, h6, h5, h4, h3, h2]

/-- The layout `20060102T150405.000000000Z0700` of a time in UTC. -/
def timestampBlocks : List FixedWidth.Block :=
  [⟨4, []⟩, ⟨2, []⟩, ⟨2, ['T']⟩, ⟨2, []⟩, ⟨2, []⟩, ⟨2, ['.']⟩, ⟨9, ['Z']⟩]

def timestampNumbers (t : Int) : List Nat :=
  let seconds := t / 1000000000
  let date := dateOfDays (seconds / 86400)
  let clock := (seconds % 86400).toNat
  [date.year.toNat, date.month, date.day, clock / 3600, clock / 60 % 60, clock % 60,
    (t % 1000000000).toNat]

variable {t u : Int} {id : GoString}

theorem timestamp_eq (h : FourDigitYear t) :
    (timestamp t).toList = FixedWidth.text timestampBlocks (timestampNumbers t) := by
  obtain ⟨hlo, hhi⟩ := h
  obtain ⟨n, hn⟩ : ∃ n : Nat, (dateOfDays (t / 1000000000 / 86400)).year = n :=
    ⟨_, (Int.toNat_of_nonneg hlo).symm⟩
  rw [hn] at hhi
  simp only [timestamp, String.toList_ofList, hn, yearText_of_lt (show n < 10000 by omega),
    timestampNumbers, timestampBlocks, FixedWidth.text, FixedWidth.two_eq_decimal,
    FixedWidth.four_eq_decimal, nine_eq_decimal, Int.toNat_natCast, List.append_nil,
    List.append_assoc]

theorem fits_timestampNumbers (h : FourDigitYear t) :
    FixedWidth.Fits timestampBlocks (timestampNumbers t) := by
  obtain ⟨hlo, hhi⟩ := h
  have hspec := dateOfDays_spec (t / 1000000000 / 86400)
  dsimp only at hspec
  obtain ⟨-, -, hmonth, -, hday⟩ := hspec
  have hdays := daysIn_le (dateOfDays (t / 1000000000 / 86400)).month
    (dateOfDays (t / 1000000000 / 86400)).year
  have hclock : (t / 1000000000 % 86400).toNat < 86400 := by omega
  have hns : (t % 1000000000).toNat < 1000000000 := by omega
  unfold FixedWidth.Fits timestampBlocks timestampNumbers
  simp only [List.forall₂_cons, List.Forall₂.nil, and_true]
  omega

theorem clock_lt_or {m n : Nat} (h : m < n) :
    m / 3600 < n / 3600 ∨ m / 3600 = n / 3600 ∧ (m / 60 % 60 < n / 60 % 60 ∨
      m / 60 % 60 = n / 60 % 60 ∧ m % 60 < n % 60) := by
  omega

/-- **Later instants have greater numbers.** -/
theorem timestampNumbers_lt (ht : FourDigitYear t) (h : t < u) :
    timestampNumbers t < timestampNumbers u := by
  obtain ⟨hyear, -⟩ := ht
  simp only [timestampNumbers, List.cons_lt_cons_iff]
  rcases lt_or_eq_of_le (show t / 1000000000 / 86400 ≤ u / 1000000000 / 86400 by omega) with
    hdays | hdays
  -- another day: the dates differ
  · rcases dateOfDays_lt hdays with hlt | ⟨heq, hlt | ⟨heq', hlt⟩⟩
    · exact .inl (by omega)
    · exact .inr ⟨by rw [heq], .inl hlt⟩
    · exact .inr ⟨by rw [heq], .inr ⟨heq', .inl hlt⟩⟩
  -- the same day: the time of day differs
  · rw [hdays]
    refine .inr ⟨rfl, .inr ⟨rfl, .inr ⟨rfl, ?_⟩⟩⟩
    rcases lt_or_eq_of_le (show (t / 1000000000 % 86400).toNat ≤ (u / 1000000000 % 86400).toNat by
      omega) with hclock | hclock
    · rcases clock_lt_or hclock with hhour | ⟨hhour, hminute | ⟨hminute, hsecond⟩⟩
      · exact .inl hhour
      · exact .inr ⟨hhour, .inl hminute⟩
      · exact .inr ⟨hhour, .inr ⟨hminute, .inl hsecond⟩⟩
    -- the same second: the nanoseconds differ
    · rw [hclock]
      exact .inr ⟨rfl, .inr ⟨rfl, .inr ⟨rfl, .inl (by omega)⟩⟩⟩

theorem timestamp_lt (ht : FourDigitYear t) (hu : FourDigitYear u) (h : t < u) :
    (timestamp t).toList < (timestamp u).toList := by
  rw [timestamp_eq ht, timestamp_eq hu]
  apply FixedWidth.text_lt
  · exact fits_timestampNumbers ht
  · exact fits_timestampNumbers hu
  · exact timestampNumbers_lt ht h

/-! ## File names -/

def isHexLower (b : UInt8) : Bool := (0x30 ≤ b && b ≤ 0x39) || (0x61 ≤ b && b ≤ 0x66)

/-- The form of `uuid.NewString()`: hexadecimal digits in groups of 8, 4, 4, 4 and 12, with dashes
    between the groups. -/
def isUUID (id : GoString) : Bool :=
  id.length == 36 &&
    id.zipIdx.all fun (b, i) =>
      if i = 8 ∨ i = 13 ∨ i = 18 ∨ i = 23 then b == 0x2D else isHexLower b

theorem length_of_isUUID (h : isUUID id = true) : id.length = 36 := by
  rw [isUUID, Bool.and_eq_true, beq_iff_eq] at h
  exact h.1

theorem ascii_of_isUUID (h : isUUID id = true) : ∀ b ∈ id, b.toNat < 128 := by
  intro b hb
  obtain ⟨i, hi⟩ := List.mem_iff_getElem?.mp hb
  rw [isUUID, Bool.and_eq_true, List.all_eq_true] at h
  have hform := h.2 (b, i) (List.mk_mem_zipIdx_iff_getElem?.mpr hi)
  dsimp only at hform
  split at hform
  · rw [eq_of_beq hform]
    decide
  · simp only [isHexLower, Bool.or_eq_true, Bool.and_eq_true, decide_eq_true_eq,
      UInt8.le_iff_toNat_le] at hform
    have h9 : (0x39 : UInt8).toNat = 57 := rfl
    have hf : (0x66 : UInt8).toNat = 102 := rfl
    omega

theorem valid_of_ascii {bs : List UInt8} (h : ∀ b ∈ bs, b.toNat < 128) : Valid bs := by
  induction bs with
  | nil => exact valid_bytes ""
  | cons b bs ih =>
    rw [List.forall_mem_cons] at h
    have hcons : Valid ([] ++ b :: bs) := (valid_append_cons h.1).mpr ⟨valid_bytes "", ih h.2⟩
    exact hcons

theorem replaced_of_isUUID (h : isUUID id = true) : replaced id = id :=
  replaced_eq_iff.mpr (valid_of_ascii (ascii_of_isUUID h))

/-- The order of dead letters: by time, and by id at the same time. -/
def RawRecord.Before (a b : RawRecord) : Prop :=
  a.createdAt < b.createdAt ∨ a.createdAt = b.createdAt ∧ a.id < b.id

theorem byteText_lt {a b : GoString} (h : a < b) : (byteText a).toList < (byteText b).toList := by
  rw [byteText, byteText, String.toList_ofList, String.toList_ofList]
  refine List.map_lt (fun x y hxy => ?_) h
  rw [Char.lt_def, UInt32.lt_iff_toNat_lt]
  have hx : (Char.ofNat x.toNat).val.toNat = x.toNat := toNat_byteChar x
  have hy : (Char.ofNat y.toNat).val.toNat = y.toNat := toNat_byteChar y
  rw [hx, hy]
  exact UInt8.lt_iff_toNat_lt.mp hxy

theorem length_byteText (h : isUUID id = true) : (byteText id).toList.length = 36 := by
  rw [byteText, String.toList_ofList, List.length_map, length_of_isUUID h]

theorem fileName_lt_of_before {p q : Payload} (hp : isUUID p.record.id = true)
    (hq : isUUID q.record.id = true) (h : p.record.Before q.record) : p.fileName < q.fileName := by
  rw [String.lt_iff_toList_lt]
  simp only [Payload.fileName, RawRecord.fileName, String.toList_append, List.append_assoc]
  rcases h with htime | ⟨htime, hid⟩
  · apply FixedWidth.append_lt_append
    · rw [p.length_timestamp, q.length_timestamp]
    · exact timestamp_lt p.year q.year htime
  · rw [htime]
    apply List.append_left_lt
    apply List.append_left_lt
    apply FixedWidth.append_lt_append
    · rw [length_byteText hp, length_byteText hq]
    · exact byteText_lt hid

/-- **File names sort by time and id.** -/
theorem fileName_lt_iff {p q : Payload} (hp : isUUID p.record.id = true)
    (hq : isUUID q.record.id = true) : p.fileName < q.fileName ↔ p.record.Before q.record := by
  constructor
  · intro h
    rcases lt_trichotomy p.record.createdAt q.record.createdAt with htime | htime | htime
    · exact .inl htime
    · rcases Std.lt_trichotomy p.record.id q.record.id with hid | hid | hid
      · exact .inr ⟨htime, hid⟩
      · have hname : p.fileName = q.fileName := by
          simp only [Payload.fileName, RawRecord.fileName, htime, hid]
        rw [hname] at h
        exact absurd h (lt_irrefl _)
      · exact absurd (fileName_lt_of_before hq hp (.inr ⟨htime.symm, hid⟩)) h.asymm
    · exact absurd (fileName_lt_of_before hq hp (.inl htime)) h.asymm
  · exact fileName_lt_of_before hp hq

/-! ## Listings -/

/-- The file is as `Save` writes it, for a record with a UUID. -/
def File.Written (file : File) : Prop :=
  ∃ payload : Payload, isUUID payload.record.id = true ∧ file.content = payload.record.stored ∧
    file.name = payload.fileName

/-- All dead letters of the directory are as `Save` writes them. -/
def Dir.Written (dir : Dir) : Prop :=
  ∀ file ∈ dir.rows, file.isDeadLetter = true → file.Written

/-- The first `limit` dead letters of a directory in the order of time and id. -/
structure Oldest (limit : Nat) (dir : Dir) (letters : List StoredDeadLetter) : Prop where
  length_eq : letters.length = min limit (dir.rows.filter File.isDeadLetter).length
  stored : ∀ letter ∈ letters, letter.IsIn dir
  inOrder : letters.Pairwise fun a b => a.record.Before b.record
  smallest : ∀ letter ∈ letters, ∀ file ∈ dir.rows, file.isDeadLetter = true →
    ∀ record ∈ file.content, (⟨record, file.name⟩ : StoredDeadLetter) ∉ letters →
      letter.record.Before record

theorem File.Written.letter? {file : File} (h : file.Written) :
    ∃ record, file.content = some record ∧ file.letter? = some ⟨record, file.name⟩ := by
  obtain ⟨payload, -, hcontent, -⟩ := h
  rw [RawRecord.stored_of_marshal payload.marshals] at hcontent
  exact ⟨_, hcontent, by rw [File.letter?, hcontent, Option.map_some]⟩

theorem File.Written.record_eq {file : File} (h : file.Written) {letter : StoredDeadLetter}
    (hletter : file.letter? = some letter) :
    ∃ payload : Payload, isUUID payload.record.id = true ∧ file.name = payload.fileName ∧
      letter.record.createdAt = payload.record.createdAt ∧
      letter.record.id = payload.record.id := by
  obtain ⟨payload, hid, hcontent, hname⟩ := h
  rw [File.letter?, hcontent, RawRecord.stored_of_marshal payload.marshals, Option.map_some,
    Option.some.injEq] at hletter
  refine ⟨payload, hid, hname, ?_, ?_⟩
  · rw [← hletter]
    rfl
  · rw [← hletter]
    exact replaced_of_isUUID hid

theorem File.Written.before {a b : File} (ha : a.Written) (hb : b.Written)
    (h : a.name < b.name) {x y : StoredDeadLetter} (hx : a.letter? = some x)
    (hy : b.letter? = some y) : x.record.Before y.record := by
  obtain ⟨p, hp, hpname, hptime, hpid⟩ := ha.record_eq hx
  obtain ⟨q, hq, hqname, hqtime, hqid⟩ := hb.record_eq hy
  rw [hpname, hqname, fileName_lt_iff hp hq] at h
  rw [RawRecord.Before, hptime, hqtime, hpid, hqid]
  exact h

/-- **`List` returns the oldest dead letters, oldest first.** -/
theorem oldest_of_listRecords (cfg : ReliableSettings) {dir : Dir} (hdir : Dir.Written dir)
    {limit : Nat} (hlimit : 1 ≤ limit) :
    ∃ letters, listRecords cfg none (fun _ => none) dir limit = .ok letters ∧
      Oldest limit dir letters := by
  have hmem : ∀ file ∈ (Dir.letters dir).take limit, file ∈ dir.rows ∧ file.Written := by
    intro file hfile
    obtain ⟨hrows, hletter⟩ := Dir.mem_letters.mp (List.mem_of_mem_take hfile)
    exact ⟨hrows, hdir file hrows hletter⟩
  refine ⟨((Dir.letters dir).take limit).filterMap File.letter?, ?_, ?_, ?_, ?_, ?_⟩
  · rw [listRecords_eq_ok_iff, max_eq_left hlimit]
    refine ⟨?_, rfl⟩
    intro file hfile
    obtain ⟨record, hcontent, -⟩ := (hmem file hfile).2.letter?
    simp [File.isReadable, hcontent]
  -- every file that is read holds a letter, so none is lost
  · have hsome : ∀ file ∈ (Dir.letters dir).take limit, (file.letter?).isSome = true := by
      intro file hfile
      obtain ⟨record, -, hletter⟩ := (hmem file hfile).2.letter?
      rw [hletter]
      rfl
    rw [List.filterMap_length_eq_length.mpr hsome, List.length_take, Dir.letters,
      ((KeyedTable.perm_sortedRows dir).filter _).length_eq]
  · intro letter hletter
    obtain ⟨file, hfile, hletter⟩ := List.mem_filterMap.mp hletter
    obtain ⟨record, hcontent, hread⟩ := (hmem file hfile).2.letter?
    rw [hread, Option.some.injEq] at hletter
    exact ⟨file, (hmem file hfile).1, by rw [← hletter], by rw [← hletter, hcontent]⟩
  · rw [List.pairwise_filterMap]
    apply ((Dir.pairwise_letters dir).sublist (List.take_sublist limit _)).imp_of_mem
    intro a b ha hb hlt x hx y hy
    exact (hmem a ha).2.before (hmem b hb).2 hlt hx hy
  -- a letter that is left out has a name behind those that were taken
  · intro letter hletter other hother hdead record hrecord hnot
    obtain ⟨file, hfile, hletter⟩ := List.mem_filterMap.mp hletter
    have hread : other.letter? = some ⟨record, other.name⟩ := by
      rw [File.letter?, Option.mem_def.mp hrecord, Option.map_some]
    have hbehind : other ∉ (Dir.letters dir).take limit := by
      intro htaken
      exact hnot (List.mem_filterMap.mpr ⟨other, htaken, hread⟩)
    have hlt : file.name < other.name :=
      KeyedTable.key_lt_of_mem_take (Dir.pairwise_letters dir) hfile
        (Dir.mem_letters.mpr ⟨hother, hdead⟩) hbehind
    exact (hmem file hfile).2.before (hdir other hother hdead) hlt hletter hread

/-! ## What `Save` writes -/

/-- `uuid.NewString` returns a UUID, and the clock shows a year of four digits. -/
def SoundRecord : Event → Prop
  | .call _ (.record id now clock uuid) =>
    isUUID id = true ∧ isUUID uuid = true ∧ FourDigitYear now ∧ FourDigitYear clock
  | _ => True

instance (e : Event) : Decidable (SoundRecord e) := by
  unfold SoundRecord
  split <;> infer_instance

/-- The record is one that `Save` is meant for. -/
def RawRecord.Sound (record : RawRecord) : Prop :=
  isUUID record.id = true ∧ FourDigitYear record.createdAt

/-- The files of this run are as `Save` writes them, and so are those that are being saved. -/
structure WritesSound (s : Sys) : Prop where
  files : ∀ file ∈ s.dir.rows, file.origin.isSome = true → file.Written
  records : ∀ c ∈ s.calls, ∀ record ∈ c.phase.record?, record.Sound

theorem RawRecord.Sound.withDefaults {record : RawRecord} {clock : Int} {uuid : GoString}
    (h : record.Sound) (huuid : isUUID uuid = true) (hclock : FourDigitYear clock) :
    (record.withDefaults clock uuid).Sound := by
  unfold RawRecord.withDefaults
  refine ⟨?_, ?_⟩
  · dsimp only
    split
    · exact huuid
    · exact h.1
  · dsimp only
    split
    · exact hclock
    · exact h.2

theorem WritesSound.put {s s' : Sys} (h : WritesSound s) {i : Nat} {c : Call}
    (hfiles : ∀ file ∈ s'.dir.rows, file.origin.isSome = true → file.Written)
    (hcalls : s'.calls = s.calls.set i c)
    (hrecord : ∀ record ∈ c.phase.record?, record.Sound) : WritesSound s' := by
  refine ⟨hfiles, ?_⟩
  rw [hcalls]
  intro c' hc'
  rcases List.mem_or_eq_of_mem_set hc' with hold | rfl
  · exact h.records c' hold
  · exact hrecord

theorem Step.writesSound {s s' : Sys} {e : Event} (hstep : Step timestamp s e s')
    (hok : SoundRecord e) (h : WritesSound s) : WritesSound s' := by
  cases hstep with
  | publish =>
    refine ⟨h.files, fun c hc => ?_⟩
    rcases List.mem_append.mp hc with hold | hnew
    · exact h.records c hold
    · rw [List.mem_singleton.mp hnew]
      simp [CallPhase.record?]
  | @call _ i c phase _ _ _ hc _ _ hrecord =>
    refine h.put h.files rfl fun record hrec => ?_
    rcases hrecord record hrec with hold | ⟨err, id, now, clock, uuid, rfl, rfl⟩
    · exact h.records c (List.mem_of_getElem? hc) record hold
    -- a new record, from the clock and a new UUID
    · obtain ⟨hid, huuid, hnow, hclock⟩ := hok
      exact RawRecord.Sound.withDefaults ⟨hid, hnow⟩ huuid hclock
  | callAcked _ _ hrecord => exact h.put h.files rfl (by simp [hrecord])
  | @saved _ i c record err dir hc hphase hmarshal _ hinsert =>
    -- the rename puts the record in place, under its own name
    obtain ⟨-, hrows⟩ := KeyedTable.insert_eq_some hinsert
    refine h.put (fun file hfile horigin => ?_) rfl (by simp [CallPhase.record?])
    rcases List.mem_cons.mp (hrows ▸ hfile) with rfl | hold
    · have hsound := h.records c (List.mem_of_getElem? hc) record (hphase ▸ rfl)
      exact ⟨⟨record, hmarshal⟩, hsound.1, (RawRecord.stored_of_marshal hmarshal).symm, rfl⟩
    · exact h.files file hold horigin
  | removed =>
    exact ⟨fun file hfile => h.files file (Dir.mem_remove.mp hfile).1, h.records⟩
  | refuse | replay | replayAcked | deleteFailed => exact ⟨h.files, h.records⟩

/-- **Every file that the publisher saves is as `Save` writes it.** -/
theorem saved_written (opts : ReliableOptions) {s : Sys}
    (hs : (reliable opts timestamp).ReachableBy (fun _ e => SoundRecord e) s) :
    ∀ file ∈ s.dir.rows, file.origin.isSome = true → file.Written := by
  have hsound : WritesSound s := by
    refine System.ReachableBy.invariant (P := WritesSound) ?_ ?_ hs
    · rintro s ⟨dir, horigin, rfl⟩
      refine ⟨?_, by simp [initial]⟩
      intro file hfile hsome
      rw [horigin file hfile] at hsome
      cases hsome
    · intro s e s' _ hsound hok hstep
      exact (Step.of_step hstep).writesSound hok hsound
  exact hsound.files

/-! ## Replays -/

/-- **Dead letters are replayed in order**: the replay lists the oldest dead letters, publishes and
    removes those in front of the first failure, and leaves all other files as they are. Whether
    the letter at the failure was published depends on which of its two operations failed. -/
theorem replay_oldest_prefix (cfg : ReliableSettings) (dir : Dir) (hdir : Dir.Written dir)
    (attempts : Nat → Attempt) :
    ∃ letters, listRecords cfg none (fun _ => none) dir cfg.limit = .ok letters ∧
      Oldest cfg.limit dir letters ∧
      ∃ k ≤ letters.length, (∀ i < k, (attempts i).succeeds = true) ∧
        (k < letters.length → (attempts k).succeeds = false) ∧
        (replayOnce cfg none (fun _ => none) attempts dir).dir =
          Dir.removeAll dir ((letters.take k).map (·.name)) ∧
        (replayOnce cfg none (fun _ => none) attempts dir).published =
          letters.take (if (attempts k).publish = none then k + 1 else k) ∧
        ((replayOnce cfg none (fun _ => none) attempts dir).err = none ↔ k = letters.length) := by
  obtain ⟨letters, hlist, holdest⟩ := oldest_of_listRecords cfg hdir cfg.one_le_limit
  refine ⟨letters, hlist, holdest, ?_⟩
  simp only [replayOnce, hlist, replayListed]
  exact replayLoop_spec cfg attempts letters dir

/-- The file that `Save` makes of a record. -/
def Payload.file (payload : Payload) : File :=
  ⟨payload.fileName, false, payload.record.stored, none⟩

theorem Payload.written_file (payload : Payload) (h : isUUID payload.record.id = true) :
    payload.file.Written := ⟨payload, h, rfl, rfl⟩

def laterLetter : Payload :=
  ⟨⟨bytes "00000000-0000-4000-8000-000000000001", 63902908800000000001, bytes "org.changed", .empty,
    [1], bytes "timeout"⟩, by decide +kernel⟩

/-- A letter one nanosecond older, with a greater id. -/
def earlierLetter : Payload :=
  ⟨⟨bytes "00000000-0000-4000-8000-000000000002", 63902908800000000000, bytes "org.changed", .empty,
    [2], bytes "timeout"⟩, by decide +kernel⟩

def twoLetters : Dir :=
  ⟨[laterLetter.file, earlierLetter.file], by
    have hne : laterLetter.fileName ≠ earlierLetter.fileName := by
      intro heq
      exact absurd (Payload.id_eq_of_fileName_eq heq) (by decide)
    simpa [Payload.file] using hne⟩

theorem written_twoLetters : Dir.Written twoLetters := by
  intro file hfile _
  rcases List.mem_pair.mp hfile with rfl | rfl
  · exact laterLetter.written_file (by decide +kernel)
  · exact earlierLetter.written_file (by decide +kernel)

/-- The first letter of the batch is replayed, and the second cannot be published. -/
def secondFails : Nat → Attempt
  | 0 => ⟨none, none⟩
  | _ + 1 => ⟨some "circuit_open", none⟩

theorem replay_oldest_prefix_twoLetters :
    ∃ letters, listRecords batchOfTen none (fun _ => none) twoLetters batchOfTen.limit = .ok letters ∧
      Oldest batchOfTen.limit twoLetters letters ∧ letters.length = 2 ∧
      (replayOnce batchOfTen none (fun _ => none) secondFails twoLetters).dir =
        Dir.removeAll twoLetters ((letters.take 1).map (·.name)) ∧
      (replayOnce batchOfTen none (fun _ => none) secondFails twoLetters).published =
        letters.take 1 := by
  obtain ⟨letters, hlist, holdest, k, hk, hbefore, hstop, hdir, hpublished, -⟩ :=
    replay_oldest_prefix batchOfTen twoLetters written_twoLetters secondFails
  have hfilter : twoLetters.rows.filter File.isDeadLetter = twoLetters.rows := by
    simp [twoLetters, Payload.file, File.isDeadLetter, Payload.isJson_fileName]
  have hlength : letters.length = 2 := by
    rw [holdest.length_eq, hfilter]
    rfl
  -- the first attempt succeeds and the second does not
  have hone : k = 1 := by
    have hpos : k ≠ 0 := by
      rintro rfl
      exact absurd (hstop (by omega)) (by decide)
    have htwo : k ≠ 2 := by
      rintro rfl
      exact absurd (hbefore 1 (by omega)) (by decide)
    omega
  subst hone
  exact ⟨letters, hlist, holdest, hlength, hdir, hpublished⟩

end ServiceRuntime.NatsBus
