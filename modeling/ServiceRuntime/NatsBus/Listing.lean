import ServiceRuntime.Storage.SortedRows
import ServiceRuntime.NatsBus.Reliable

/-!
# Listing Dead Letters

`List(limit)` reads the dead letters in the order of their names until it has `limit` of them. In
`NatsBus.Reliable` each read is a step of its own, between which anything may happen; here the
call is one function, on a directory that does not change while it runs. `NatsBus.ReplayOnce` says
that this is what the steps amount to when nothing else runs in between.

`List` returns as soon as one file cannot be read or decoded, with an error and without the
records it has read before. So a bad file is harmless only where it is never read: when it sorts
behind a full batch of good ones (`listing_unharmed_iff`).
-/

namespace ServiceRuntime.NatsBus

open GoStrings Storage Transition

/-! ## The call -/

/-- One turn of the loop; `faults` are the errors of `os.ReadFile` for the files that cannot be
    read. -/
def readNamed (cfg : ReliableSettings) (faults : String → Option String) (dir : Dir)
    (name : String) : Except String StoredDeadLetter := readRecord cfg (faults name) dir name

/-- The loop of `List` over the names of dead letters. The limit is checked after a record has been
    appended, so a limit of zero lets one through. -/
def listLoop (cfg : ReliableSettings) (faults : String → Option String) (dir : Dir) (limit : Nat) :
    List String → List StoredDeadLetter → Except String (List StoredDeadLetter)
  | [], records => .ok records
  | name :: names, records =>
    match readNamed cfg faults dir name with
    | .error err => .error err
    | .ok record =>
      let records := records ++ [record]
      if limit ≤ records.length then .ok records else listLoop cfg faults dir limit names records

/-- `List(limit)`; `readDir` is the error of `os.ReadDir`, if it fails. -/
def listRecords (cfg : ReliableSettings) (readDir : Option String)
    (faults : String → Option String) (dir : Dir) (limit : Nat) :
    Except String (List StoredDeadLetter) :=
  match readDir with
  | some err => .error ("list dead letters: " ++ err)
  | none => listLoop cfg faults dir limit (Dir.list dir) []

/-- The loop reads the names that fit into the batch, and fails if one of them fails. -/
theorem listLoop_eq (cfg : ReliableSettings) (faults : String → Option String) (dir : Dir)
    (limit : Nat) (names : List String) (records : List StoredDeadLetter)
    (h : records.length < max limit 1) :
    listLoop cfg faults dir limit names records =
      ((names.take (max limit 1 - records.length)).mapM (readNamed cfg faults dir)).map
        (records ++ ·) := by
  induction names generalizing records with
  | nil => simp [listLoop, Except.map, pure, Except.pure]
  | cons name names ih =>
    obtain ⟨room, hroom⟩ : ∃ room, max limit 1 - records.length = room + 1 :=
      ⟨max limit 1 - records.length - 1, by omega⟩
    rw [listLoop, hroom, List.take_succ_cons, List.mapM_cons]
    cases hread : readNamed cfg faults dir name with
    | error err => rfl
    | ok record =>
      have hlength : (records ++ [record]).length = records.length + 1 := by simp
      by_cases hfull : limit ≤ (records ++ [record]).length
      -- the batch is full, and there was room for one
      · have hzero : room = 0 := by omega
        simp only [if_pos hfull, hzero, List.take_zero, List.mapM_nil]
        rfl
      · simp only [if_neg hfull]
        have hrest : max limit 1 - (records ++ [record]).length = room := by omega
        rw [ih (records ++ [record]) (by omega), hrest]
        cases (names.take room).mapM (readNamed cfg faults dir) with
        | error err => rfl
        | ok letters => simp [Except.map, bind, Except.bind, pure, Except.pure]

/-! ## What a listing returns -/

def Dir.letters (dir : Dir) : List File := (KeyedTable.sortedRows dir).filter File.isDeadLetter

theorem Dir.list_eq (dir : Dir) : Dir.list dir = (Dir.letters dir).map File.name := rfl

theorem Dir.mem_letters {dir : Dir} {file : File} :
    file ∈ Dir.letters dir ↔ file ∈ dir.rows ∧ file.isDeadLetter = true := by
  rw [Dir.letters, List.mem_filter, KeyedTable.mem_sortedRows]

theorem Dir.pairwise_letters (dir : Dir) :
    (Dir.letters dir).Pairwise fun a b => a.name < b.name :=
  (KeyedTable.pairwise_sortedRows dir).sublist List.filter_sublist

/-- The file can be read, and its content decodes. -/
def File.isReadable (faults : String → Option String) (file : File) : Bool :=
  (faults file.name).isNone && file.content.isSome

/-- What `List` makes of a file that decodes. -/
def File.letter? (file : File) : Option StoredDeadLetter := file.content.map (⟨·, file.name⟩)

section Reading

variable (cfg : ReliableSettings) {faults : String → Option String} {dir : Dir}

theorem readNamed_of_readable {file : File} (hfile : file ∈ dir.rows)
    (h : file.isReadable faults = true) :
    ∃ letter, file.letter? = some letter ∧ readNamed cfg faults dir file.name = .ok letter := by
  have hfind : dir.find file.name = some file := KeyedTable.find_eq_some_iff.mpr ⟨hfile, rfl⟩
  rw [File.isReadable, Bool.and_eq_true, Option.isNone_iff_eq_none] at h
  obtain ⟨record, hrecord⟩ := Option.isSome_iff_exists.mp h.2
  refine ⟨⟨record, file.name⟩, ?_, ?_⟩
  · rw [File.letter?, hrecord, Option.map_some]
  · simp only [readNamed, readRecord, h.1, hfind, hrecord]

theorem readNamed_of_not_readable {file : File} (hfile : file ∈ dir.rows)
    (h : file.isReadable faults = false) :
    ∃ err, readNamed cfg faults dir file.name = .error err := by
  have hfind : dir.find file.name = some file := KeyedTable.find_eq_some_iff.mpr ⟨hfile, rfl⟩
  unfold readNamed readRecord
  rw [hfind]
  cases hfault : faults file.name with
  | some err => exact ⟨_, rfl⟩
  | none =>
    cases hcontent : file.content with
    | none =>
      simp only [hcontent]
      exact ⟨_, rfl⟩
    | some record => simp [File.isReadable, hfault, hcontent] at h

/-- Reading some files succeeds if all are readable, with the records that are in them. -/
theorem mapM_readNamed_eq_ok_iff {files : List File} (hfiles : ∀ file ∈ files, file ∈ dir.rows)
    {letters : List StoredDeadLetter} :
    (files.map File.name).mapM (readNamed cfg faults dir) = .ok letters ↔
      (∀ file ∈ files, file.isReadable faults = true) ∧ files.filterMap File.letter? = letters := by
  induction files generalizing letters with
  | nil => simp [pure, Except.pure]
  | cons file files ih =>
    have hfile := hfiles file List.mem_cons_self
    have ih := @ih fun other hother => hfiles other (List.mem_cons_of_mem file hother)
    rw [List.map_cons, List.mapM_cons, List.forall_mem_cons]
    cases hreadable : file.isReadable faults with
    | false =>
      obtain ⟨err, hread⟩ := readNamed_of_not_readable cfg hfile hreadable
      simp [hread, bind, Except.bind]
    | true =>
      obtain ⟨letter, hletter, hread⟩ := readNamed_of_readable cfg hfile hreadable
      rw [hread, List.filterMap_cons_some hletter]
      cases hrest : (files.map File.name).mapM (readNamed cfg faults dir) with
      | error err =>
        -- one of the other files is bad
        have hnot := @ih (files.filterMap File.letter?)
        rw [hrest] at hnot
        simp_all [bind, Except.bind]
      | ok rest =>
        obtain ⟨hall, hrest⟩ := ih.mp hrest
        simp_all [bind, Except.bind, pure, Except.pure]

/-- **What `List` returns**: the first letters of the directory, if they are all readable. -/
theorem listRecords_eq_ok_iff {limit : Nat} {letters : List StoredDeadLetter} :
    listRecords cfg none faults dir limit = .ok letters ↔
      (∀ file ∈ (Dir.letters dir).take (max limit 1), file.isReadable faults = true) ∧
        ((Dir.letters dir).take (max limit 1)).filterMap File.letter? = letters := by
  have hmem : ∀ file ∈ (Dir.letters dir).take (max limit 1), file ∈ dir.rows := by
    intro file hfile
    exact (Dir.mem_letters.mp (List.mem_of_mem_take hfile)).1
  rw [← mapM_readNamed_eq_ok_iff cfg hmem, List.map_take, ← Dir.list_eq]
  have hloop := listLoop_eq cfg faults dir limit (Dir.list dir) [] (by simp)
  rw [List.length_nil, Nat.sub_zero] at hloop
  change listLoop cfg faults dir limit (Dir.list dir) [] = .ok letters ↔ _
  rw [hloop]
  cases ((Dir.list dir).take (max limit 1)).mapM (readNamed cfg faults dir) with
  | error err | ok read => simp [Except.map]

end Reading

/-! ## Bad files -/

/-- The directory without the dead letters that cannot be read or do not decode. -/
def Dir.withoutBad (faults : String → Option String) (dir : Dir) : Dir :=
  dir.keepWhere fun file => !file.isDeadLetter || file.isReadable faults

/-- A bad file harms only itself: what `List` would return without the bad files, it returns. -/
def Unharmed (cfg : ReliableSettings) (faults : String → Option String) (dir : Dir)
    (limit : Nat) : Prop :=
  ∀ letters, listRecords cfg none faults (Dir.withoutBad faults dir) limit = .ok letters →
    ∀ letter ∈ letters, ∃ letters',
      listRecords cfg none faults dir limit = .ok letters' ∧ letter ∈ letters'

theorem Dir.letters_withoutBad (faults : String → Option String) (dir : Dir) :
    Dir.letters (Dir.withoutBad faults dir) =
      (Dir.letters dir).filter fun file => file.isReadable faults := by
  rw [Dir.letters, Dir.letters, Dir.withoutBad, KeyedTable.sortedRows_keepWhere, List.filter_filter,
    List.filter_filter]
  apply List.filter_congr
  intro file _
  cases file.isDeadLetter <;> simp

theorem take_filter_of_forall {α : Type*} {p : α → Bool} {l : List α} {n : Nat}
    (h : ∀ x ∈ l.take n, p x = true) : (l.filter p).take n = l.take n := by
  induction l generalizing n with
  | nil => rfl
  | cons x l ih =>
    cases n with
    | zero => rfl
    | succ n =>
      rw [List.take_succ_cons, List.forall_mem_cons] at h
      rw [List.filter_cons_of_pos h.1, List.take_succ_cons, List.take_succ_cons, ih h.2]

/-- A listing goes wrong through a bad file exactly if there is something to lose and one of the
    files to be read is bad. -/
theorem unharmed_iff_forall_take (cfg : ReliableSettings) (faults : String → Option String)
    (dir : Dir) (limit : Nat) :
    Unharmed cfg faults dir limit ↔
      (Dir.letters dir).filter (fun file => file.isReadable faults) = [] ∨
        ∀ file ∈ (Dir.letters dir).take (max limit 1), file.isReadable faults = true := by
  unfold Unharmed
  simp only [listRecords_eq_ok_iff, Dir.letters_withoutBad]
  have hgood : ∀ file ∈ ((Dir.letters dir).filter fun file => file.isReadable faults).take
      (max limit 1), file.isReadable faults = true := by
    intro file hfile
    exact (List.mem_filter.mp (List.mem_of_mem_take hfile)).2
  constructor
  · intro h
    cases hfilter : (Dir.letters dir).filter fun file => file.isReadable faults with
    | nil => exact .inl rfl
    | cons file rest =>
      -- the first good file would be returned, so the listing must not fail
      have hfile : file ∈ (file :: rest).take (max limit 1) := by
        obtain ⟨n, hn⟩ : ∃ n, max limit 1 = n + 1 := ⟨max limit 1 - 1, by omega⟩
        rw [hn, List.take_succ_cons]
        exact List.mem_cons_self
      rw [hfilter] at h hgood
      have hreadable := hgood file hfile
      rw [File.isReadable, Bool.and_eq_true] at hreadable
      obtain ⟨record, hrecord⟩ := Option.isSome_iff_exists.mp hreadable.2
      have hletter : file.letter? = some ⟨record, file.name⟩ := by
        rw [File.letter?, hrecord, Option.map_some]
      obtain ⟨letters', ⟨hall, -⟩, -⟩ := h _ ⟨hgood, rfl⟩ ⟨record, file.name⟩
        (List.mem_filterMap.mpr ⟨file, hfile, hletter⟩)
      exact .inr hall
  · rintro (hnone | hall) letters ⟨-, rfl⟩ letter hletter
    · rw [hnone, List.take_nil] at hletter
      cases hletter
    · rw [take_filter_of_forall hall] at hletter
      exact ⟨_, ⟨hall, rfl⟩, hletter⟩

/-- **When bad files are harmless**: no file is good, or before each bad file in the order of names
    there are enough good ones for a whole batch. -/
theorem listing_unharmed_iff (cfg : ReliableSettings) (faults : String → Option String) (dir : Dir)
    (limit : Nat) :
    Unharmed cfg faults dir limit ↔
      (∀ file ∈ dir.rows, file.isDeadLetter = true → file.isReadable faults = false) ∨
        ∀ bad ∈ dir.rows, bad.isDeadLetter = true → bad.isReadable faults = false →
          max limit 1 ≤ (dir.rows.filter fun file =>
            file.isDeadLetter && (file.isReadable faults && file.name < bad.name)).length := by
  -- counted in the order of names or in any other, there are as many
  have hcount : ∀ name, ((Dir.letters dir).filter fun file =>
      file.isReadable faults && file.name < name).length =
      (dir.rows.filter fun file =>
        file.isDeadLetter && (file.isReadable faults && file.name < name)).length := by
    intro name
    rw [Dir.letters, List.filter_filter]
    have hperm := (KeyedTable.perm_sortedRows dir).filter fun file =>
      file.isReadable faults && decide (file.name < name) && file.isDeadLetter
    rw [hperm.length_eq]
    congr 2
    funext file
    rw [Bool.and_comm]
  rw [unharmed_iff_forall_take, KeyedTable.forall_mem_take_iff (Dir.pairwise_letters dir),
    List.filter_eq_nil_iff]
  apply or_congr
  · simp only [Dir.mem_letters, and_imp, Bool.not_eq_true]
  · simp only [Dir.mem_letters, and_imp, hcount]

def sampleRecord : RawRecord :=
  ⟨bytes "id", 1, bytes "org.changed", .empty, [1], bytes "timeout"⟩

/-- A dead letter whose content does not decode, in front of a good one. -/
def truncatedFirst : Dir :=
  ⟨[⟨"a.json", false, none, none⟩, ⟨"b.json", false, some sampleRecord, none⟩], by decide⟩

def batchOfTen : ReliableSettings :=
  ReliableOptions.withDefaults ⟨⟨1, none⟩, ⟨1, .second, 1, false⟩, "dlq", 10⟩

/-- Without the bad file `List` returns the good one; with it, `List` returns an error. -/
theorem good_letter_hidden_by_bad :
    listRecords batchOfTen none (fun _ => none) (Dir.withoutBad (fun _ => none) truncatedFirst) 10 =
        .ok [⟨sampleRecord, "b.json"⟩] ∧
      listRecords batchOfTen none (fun _ => none) truncatedFirst 10 =
        .error "decode dead letter dlq/a.json: invalid JSON" ∧
      ¬Unharmed batchOfTen (fun _ => none) truncatedFirst 10 := by
  have hclean : listRecords batchOfTen none (fun _ => none)
      (Dir.withoutBad (fun _ => none) truncatedFirst) 10 = .ok [⟨sampleRecord, "b.json"⟩] := rfl
  have herror : listRecords batchOfTen none (fun _ => none) truncatedFirst 10 =
      .error "decode dead letter dlq/a.json: invalid JSON" := rfl
  refine ⟨hclean, herror, ?_⟩
  intro h
  obtain ⟨letters', hlist, -⟩ := h _ hclean _ List.mem_cons_self
  rw [herror] at hlist
  cases hlist

end ServiceRuntime.NatsBus
