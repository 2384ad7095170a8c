import ServiceRuntime.Downstream.Client

/-!
# The Accounting of Calls

What a client adds to its breaker is the accounting. Calls are numbered, and notes record what
became of each of them at the breaker (`Books`): it was turned away, or it was let through and its
outcome told once, or its function panicked. The answers and the metrics are then compared with the
notes (`downstream_calls_accounted`), and two clients of different failure modes with each other
(`failure_mode_only_hides_errors`).
-/

namespace ServiceRuntime.Downstream

open Resilience Transition
open History

variable {α : Type}

/-! ## What is counted -/

def Answer.failed (a : Answer α) : Bool :=
  match a.outcome with
  | .error _ => true
  | .ok _ => false

def Answer.label (a : Answer α) : String := opLabel a.op

/-- The metrics and the answers of a client. -/
structure Recorded (c : Client) (zero : α) (s : Sys α) : Prop where
  answers : ∀ a ∈ s.answers, a = c.answer zero a.toTicket a.ran a.outcome
  latency : s.latency = if c.metrics.latency then s.answers.map Answer.label else []
  errors : s.errors =
    if c.metrics.errors then (s.answers.filter Answer.failed).map Answer.label else []

section

variable {c : Client} {zero : α} {s : Sys α}

@[simp] theorem answer_ticket (call : Ticket) (ran : Bool) (outcome : Except CallError α) :
    (c.answer zero call ran outcome).toTicket = call := by
  cases outcome <;> rfl

@[simp] theorem answer_ran (call : Ticket) (ran : Bool) (outcome : Except CallError α) :
    (c.answer zero call ran outcome).ran = ran := by
  cases outcome <;> rfl

@[simp] theorem answer_outcome (call : Ticket) (ran : Bool) (outcome : Except CallError α) :
    (c.answer zero call ran outcome).outcome = outcome := by
  cases outcome <;> rfl

theorem answer_value (c' : Client) (call : Ticket) (ran : Bool) (outcome : Except CallError α) :
    (c'.answer zero call ran outcome).value = (c.answer zero call ran outcome).value := by
  cases outcome <;> rfl

theorem answer_err_of_failOpen (hmode : c.mode = .failOpen) (call : Ticket) (ran : Bool)
    (outcome : Except CallError α) : (c.answer zero call ran outcome).err = none := by
  cases outcome with
  | ok value => rfl
  | error err =>
    simp only [Client.answer, hmode]
    rfl

theorem Recorded.finish (h : Recorded c zero s) (call : Ticket) (ran : Bool)
    (outcome : Except CallError α) : Recorded c zero (s.finish c zero call ran outcome) := by
  have hlabel : (c.answer zero call ran outcome).label = opLabel call.op :=
    congrArg (fun call : Ticket => opLabel call.op) (answer_ticket ..)
  refine ⟨?_, ?_, ?_⟩
  · intro a ha
    rcases List.mem_cons.mp ha with rfl | ha
    · rw [answer_ticket, answer_ran, answer_outcome]
    · exact h.answers a ha
  · simp only [Sys.finish, Client.recordLatency, h.latency, List.map_cons, hlabel]
    split <;> rfl
  · cases outcome with
    | ok value =>
      have hok : (c.answer zero call ran (.ok value)).failed = false := rfl
      simp only [Sys.finish, h.errors, List.filter_cons, hok, Bool.false_eq_true, ↓reduceIte]
    | error err =>
      have herr : (c.answer zero call ran (.error err)).failed = true := rfl
      simp only [Sys.finish, Client.recordError, h.errors, List.filter_cons, herr, ↓reduceIte,
        List.map_cons, hlabel]
      split <;> rfl

theorem Step.recorded {s' : Sys α} (hstep : Step c zero s s') (h : Recorded c zero s) :
    Recorded c zero s' := by
  have hsame : ∀ b flights log next notes, Recorded c zero { s with
      breaker := b, flights := flights, log := log, next := next, notes := notes } :=
    fun _ _ _ _ _ => ⟨h.answers, h.latency, h.errors⟩
  cases hstep with
  | turnedAway | returned | last => exact (hsame _ _ _ _ _).finish _ _ _
  | _ => exact hsame _ _ _ _ _

end

/-! ## What the breaker did, call by call -/

/-- The kinds of things that a breaker does to a call. -/
inductive Mark where
  | turnedAway
  | letThrough
  | told
  | panicked
  deriving DecidableEq, Repr

/-- What an entry in the history of the breaker is to the call that it is about. -/
def mark? : Entry → Option Mark
  | .rejected => some .turnedAway
  | .admitted _ => some .letThrough
  | .applied _ _ => some .told
  | .discarded => some .told
  | .panicked _ => some .panicked
  | _ => none

namespace Note

def mark : Note α → Mark
  | .turnedAway _ => .turnedAway
  | .letThrough _ => .letThrough
  | .told _ _ => .told
  | .panicked _ => .panicked

def id : Note α → Nat
  | .turnedAway id => id
  | .letThrough id => id
  | .told id _ => id
  | .panicked id => id

end Note

def notesOf (id : Nat) (notes : List (Note α)) : List (Note α) := notes.filter (·.id = id)

def Flight.story : Flight α → Option (Nat × List (Note α))
  | .admitted call _ _ => some (call.id, [.letThrough call.id])
  | .finishing call _ result => some (call.id, [.told call.id result, .letThrough call.id])
  | .observer _ => none

def Answer.story (a : Answer α) : List (Note α) :=
  if a.ran then [.told a.id a.outcome, .letThrough a.id] else [.turnedAway a.id]

def Sys.stories (s : Sys α) : List (Nat × List (Note α)) :=
  s.flights.filterMap Flight.story ++ s.answers.map fun a => (a.id, a.story)

/-- The notes tell the stories of the calls, and those of calls that panicked. -/
structure Books (stories : List (Nat × List (Note α))) (notes : List (Note α)) (next : Nat) :
    Prop where
  unique : (stories.map Prod.fst).Nodup
  tells : ∀ p ∈ stories, p.1 < next ∧ notesOf p.1 notes = p.2
  old : ∀ note ∈ notes, note.id < next
  kept : ∀ note ∈ notes, (∃ p ∈ stories, p.1 = note.id) ∨ .panicked note.id ∈ notes
  panicked : ∀ id, .panicked id ∈ notes → notesOf id notes = [.panicked id, .letThrough id]

namespace Books

variable {stories stories' rest : List (Nat × List (Note α))} {notes : List (Note α)} {next : Nat}

theorem notesOf_cons_self (note : Note α) :
    notesOf note.id (note :: notes) = note :: notesOf note.id notes :=
  List.filter_cons_of_pos (by simp)

theorem notesOf_cons_of_ne {note : Note α} {id : Nat} (h : note.id ≠ id) :
    notesOf id (note :: notes) = notesOf id notes :=
  List.filter_cons_of_neg (by simp [h])

theorem perm (h : Books stories notes next) (hperm : stories.Perm stories') :
    Books stories' notes next where
  unique := (hperm.map Prod.fst).nodup_iff.mp h.unique
  tells p hp := h.tells p (hperm.mem_iff.mpr hp)
  old := h.old
  kept note hnote := (h.kept note hnote).imp_left fun ⟨p, hp, hid⟩ => ⟨p, hperm.mem_iff.mp hp, hid⟩
  panicked := h.panicked

/-- A further note is about one call: its story goes on, or ends with a panic. -/
theorem add (h : Books stories notes next) {note : Note α} {next' : Nat} (hnext : next ≤ next')
    (hid : note.id < next') (hunique : (stories'.map Prod.fst).Nodup)
    (htells : ∀ p ∈ stories', p = (note.id, note :: notesOf note.id notes) ∨
      p ∈ stories ∧ p.1 ≠ note.id)
    (hothers : ∀ p ∈ stories, p.1 ≠ note.id → p ∈ stories')
    (hown : (∃ p ∈ stories', p.1 = note.id) ∨ note = .panicked note.id)
    (hpanic : .panicked note.id ∈ note :: notes →
      note :: notesOf note.id notes = [.panicked note.id, .letThrough note.id]) :
    Books stories' (note :: notes) next' := by
  refine ⟨hunique, fun p hp => ?_, fun old hold => ?_, fun old hold => ?_, fun id hmem => ?_⟩
  · rcases htells p hp with rfl | ⟨hold, hne⟩
    · exact ⟨hid, notesOf_cons_self note⟩
    · obtain ⟨hlt, hnotes⟩ := h.tells p hold
      exact ⟨by omega, by rw [notesOf_cons_of_ne hne.symm, hnotes]⟩
  · rcases List.mem_cons.mp hold with rfl | hold
    · exact hid
    · exact (h.old old hold).trans_le hnext
  -- an older note is of this call, whose story goes on, or of another, whose story stays
  · by_cases heq : old.id = note.id
    · rw [heq]
      exact hown.imp_right fun hpanicked => List.mem_cons.mpr (.inl hpanicked.symm)
    · rcases List.mem_cons.mp hold with rfl | hold
      · exact absurd rfl heq
      · rcases h.kept old hold with ⟨p, hp, hpid⟩ | hpanicked
        · exact .inl ⟨p, hothers p hp (hpid ▸ heq), hpid⟩
        · exact .inr (List.mem_cons_of_mem _ hpanicked)
  · by_cases heq : note.id = id
    · subst heq
      exact (notesOf_cons_self note).trans (hpanic hmem)
    · rw [notesOf_cons_of_ne heq]
      rcases List.mem_cons.mp hmem with rfl | hmem
      · exact absurd rfl heq
      · exact h.panicked id hmem

/-- A new call gets a number that no note has. -/
theorem start (h : Books stories notes next) (note : Note α) (hid : note.id = next)
    (hmark : note.mark ≠ .panicked) :
    Books ((next, [note]) :: stories) (note :: notes) (next + 1) := by
  have hfresh : notesOf note.id notes = [] := by
    rw [notesOf, List.filter_eq_nil_iff]
    intro old hold
    simpa [hid] using (h.old old hold).ne
  have hnew : ∀ p ∈ stories, p.1 ≠ note.id := fun p hp => hid ▸ (h.tells p hp).1.ne
  refine h.add (Nat.le_succ next) (by omega) ?_ (fun p hp => ?_)
    (fun p hp _ => List.mem_cons_of_mem _ hp) (.inl ⟨_, List.mem_cons_self, hid.symm⟩)
    fun hmem => ?_
  · refine List.nodup_cons.mpr ⟨fun hmem => ?_, h.unique⟩
    obtain ⟨p, hp, heq⟩ := List.mem_map.mp hmem
    exact hnew p hp (heq.trans hid.symm)
  · rcases List.mem_cons.mp hp with rfl | hp
    · exact .inl (by rw [hfresh, hid])
    · exact .inr ⟨hp, hnew p hp⟩
  · rcases List.mem_cons.mp hmem with heq | hmem
    · exact absurd (heq ▸ rfl) hmark
    · exact absurd hid (h.old _ hmem).ne

theorem others {p q : Nat × List (Note α)} (h : Books (p :: rest) notes next) (hq : q ∈ rest) :
    q.1 ≠ p.1 := by
  have hunique := h.unique
  rw [List.map_cons, List.nodup_cons] at hunique
  exact fun heq => hunique.1 (List.mem_map.mpr ⟨q, hq, heq⟩)

theorem goOn {story : List (Note α)} (note : Note α)
    (h : Books ((note.id, story) :: rest) notes next) (hstory : .panicked note.id ∉ story)
    (hmark : note.mark ≠ .panicked) :
    Books ((note.id, note :: story) :: rest) (note :: notes) next := by
  obtain ⟨hlt, htells⟩ := h.tells _ List.mem_cons_self
  refine h.add le_rfl hlt h.unique (fun p hp => ?_) (fun p hp hne => ?_)
    (.inl ⟨_, List.mem_cons_self, rfl⟩) fun hmem => ?_
  · rcases List.mem_cons.mp hp with rfl | hp
    · exact .inl (by rw [htells])
    · exact .inr ⟨List.mem_cons_of_mem _ hp, h.others hp⟩
  · rcases List.mem_cons.mp hp with rfl | hp
    · exact absurd rfl hne
    · exact List.mem_cons_of_mem _ hp
  · rcases List.mem_cons.mp hmem with heq | hmem
    · exact absurd (heq ▸ rfl) hmark
    -- the notes about this call have no panic
    · have hin : .panicked note.id ∈ notesOf note.id notes :=
        List.mem_filter.mpr ⟨hmem, by simp [Note.id]⟩
      rw [htells] at hin
      exact absurd hin hstory

/-- A call that panics has no story any more. -/
theorem drop {id : Nat} (h : Books ((id, [.letThrough id]) :: rest) notes next) :
    Books rest (.panicked id :: notes) next := by
  obtain ⟨hlt, htells⟩ := h.tells _ List.mem_cons_self
  refine h.add le_rfl hlt (List.nodup_cons.mp h.unique).2
    (fun p hp => .inr ⟨List.mem_cons_of_mem _ hp, h.others hp⟩) (fun p hp hne => ?_) (.inr rfl)
    fun _ => congrArg _ htells
  rcases List.mem_cons.mp hp with rfl | hp
  · exact absurd rfl hne
  · exact hp

theorem story_of_note (h : Books stories notes next) {note : Note α} (hnote : note ∈ notes)
    (htold : note ≠ .letThrough note.id) (hpanicked : note ≠ .panicked note.id) :
    ∃ p ∈ stories, p.1 = note.id ∧ note ∈ p.2 := by
  have hmem : note ∈ notesOf note.id notes := List.mem_filter.mpr ⟨hnote, by simp⟩
  rcases h.kept note hnote with ⟨p, hp, hid⟩ | hpanic
  · refine ⟨p, hp, hid, ?_⟩
    rwa [← (h.tells p hp).2, hid]
  · rw [h.panicked _ hpanic] at hmem
    simp only [List.mem_cons, List.not_mem_nil, or_false] at hmem
    exact (hmem.elim hpanicked htold).elim

end Books

section

variable {c : Client} {zero : α} {s : Sys α}

theorem stories_perm {flight : Flight α} {story : Nat × List (Note α)}
    (hstory : flight.story = some story) (l₁ l₂ : List (Flight α))
    (answers : List (Nat × List (Note α))) :
    ((l₁ ++ flight :: l₂).filterMap Flight.story ++ answers).Perm
      (story :: ((l₁ ++ l₂).filterMap Flight.story ++ answers)) := by
  rw [List.filterMap_append, List.filterMap_cons_some hstory, List.filterMap_append,
    List.append_assoc, List.append_assoc, List.cons_append]
  exact List.perm_middle

theorem story_observing (cfg : Settings) (change : Option Change) :
    (observing cfg change : List (Flight α)).filterMap Flight.story = [] := by
  unfold observing
  cases owedCallback cfg change <;> rfl

theorem Step.books {s' : Sys α} (hstep : Step c zero s s')
    (h : Books s.stories s.notes s.next) : Books s'.stories s'.notes s'.next := by
  cases hstep with
  | @turnedAway op b now =>
    refine (h.start (.turnedAway s.next) rfl (by simp [Note.mark])).perm ?_
    exact List.perm_middle.symm
  | letThrough => exact h.start _ rfl (by simp [Note.mark])
  | @returned call adm b now result l₁ l₂ hflights =>
    rw [Sys.stories, hflights] at h
    -- the story of the call is put in front, goes on, and stands at the answers then
    have hfront := h.perm (stories_perm rfl l₁ l₂ _)
    refine (Books.goOn (.told call.id result) hfront (by simp) (by simp [Note.mark])).perm ?_
    have hstory : (c.answer zero call true result).story =
        [.told call.id result, .letThrough call.id] := by
      simp [Answer.story]
    simp only [Sys.stories, Sys.finish, List.map_cons, List.append_nil, hstory, answer_ticket]
    exact List.perm_middle.symm
  | @owing call adm b now change result l₁ l₂ hflights =>
    rw [Sys.stories, hflights] at h
    have hfront := h.perm (stories_perm rfl l₁ l₂ _)
    refine (Books.goOn (.told call.id result) hfront (by simp) (by simp [Note.mark])).perm ?_
    simp only [Sys.stories, List.append_assoc, List.singleton_append]
    exact (stories_perm rfl l₁ l₂ _).symm
  | @panic call adm l₁ l₂ hflights =>
    rw [Sys.stories, hflights] at h
    simpa [Sys.stories] using (h.perm (stories_perm rfl l₁ l₂ _)).drop
  | @notify call adm change l₁ l₂ hflights =>
    rw [Sys.stories, hflights] at h
    -- a callback leaves the story as it is
    refine h.perm ((stories_perm rfl l₁ l₂ _).trans ?_)
    simp only [Sys.stories, List.append_assoc, List.singleton_append]
    have hstory : (Flight.admitted call none adm : Flight α).story =
        some (call.id, [.letThrough call.id]) := rfl
    exact (stories_perm hstory l₁ l₂ _).symm
  | @last call change result l₁ l₂ hflights =>
    rw [Sys.stories, hflights] at h
    refine h.perm ((stories_perm rfl l₁ l₂ _).trans ?_)
    have hstory : (c.answer zero call true result).story =
        [.told call.id result, .letThrough call.id] := by
      simp [Answer.story]
    simp only [Sys.stories, Sys.finish, List.map_cons, List.append_nil, hstory, answer_ticket]
    exact List.perm_middle.symm
  | @notifyOther change l₁ l₂ hflights =>
    rw [Sys.stories, hflights, List.filterMap_append, List.filterMap_cons_none rfl] at h
    simpa [Sys.stories] using h
  | state | reset =>
    simpa only [Sys.stories, List.filterMap_append, story_observing, List.nil_append] using h

theorem marks_record (old new : BreakerState) (now : Int) (log : List Entry) :
    (record old new now log).filterMap mark? = log.filterMap mark? := by
  unfold record
  split <;> rfl

theorem mark?_outcome (b : Breaker) (wasProbe : Bool) (err : Option String) :
    mark? (outcome b wasProbe err) = some .told := by
  unfold outcome
  split <;> rfl

theorem Step.marks {s' : Sys α} (hstep : Step c zero s s')
    (h : s.log.filterMap mark? = s.notes.map Note.mark) :
    s'.log.filterMap mark? = s'.notes.map Note.mark := by
  cases hstep with
  | returned | owing =>
    simp [Sys.finish, marks_record, List.filterMap_cons_some (mark?_outcome _ _ _), h, Note.mark]
  | turnedAway | letThrough | panic => simp [Sys.finish, marks_record, mark?, h, Note.mark]
  | notify | last | notifyOther => exact h
  | state | reset => exact (marks_record ..).trans h

theorem recorded_of_reachable (h : (system c zero).Reachable s) : Recorded c zero s := by
  refine System.Reachable.invariant (P := Recorded c zero) ?_ ?_ h
  · rintro s rfl
    exact ⟨fun a ha => (by cases ha), ite_self [] |>.symm, ite_self [] |>.symm⟩
  · intro s e s' hs hstep
    simp only [system, step] at hstep
    split at hstep
    · exact (Step.of_guarded hstep).recorded hs
    · cases hstep
      have hsame : Recorded c zero { s with next := s.next + 1 } :=
        ⟨hs.answers, hs.latency, hs.errors⟩
      exact hsame.finish _ _ _
    · cases hstep

variable {breaker : BreakerConfig}

theorem books_of_reachable (hc : c.breaker = some breaker) (h : (system c zero).Reachable s) :
    Books s.stories s.notes s.next ∧ s.log.filterMap mark? = s.notes.map Note.mark := by
  refine System.Reachable.invariant
    (P := fun s => Books s.stories s.notes s.next ∧
      s.log.filterMap mark? = s.notes.map Note.mark) ?_ ?_ h
  · rintro s rfl
    exact ⟨⟨List.nodup_nil, fun _ h => (by cases h), fun _ h => (by cases h),
      fun _ h => (by cases h), fun _ h => (by cases h)⟩, rfl⟩
  · rintro s e s' ⟨hbooks, hmarks⟩ hstep
    simp only [system, step, hc] at hstep
    exact ⟨(Step.of_guarded hstep).books hbooks, (Step.of_guarded hstep).marks hmarks⟩

theorem outcome_of_not_ran (hc : c.breaker = some breaker) (h : (system c zero).Reachable s) :
    ∀ a ∈ s.answers, a.ran = false → a.outcome = .error .circuitOpen := by
  refine System.Reachable.invariant
    (P := fun s : Sys α => ∀ a ∈ s.answers, a.ran = false → a.outcome = .error .circuitOpen) ?_ ?_ h
  · rintro s rfl a ha
    cases ha
  · intro s e s' hs hstep
    simp only [system, step, hc] at hstep
    cases Step.of_guarded hstep with
    | turnedAway | returned | last =>
      intro a ha
      rcases List.mem_cons.mp ha with rfl | ha
      · simp
      · exact hs a ha
    | _ => exact hs

/-- The story of a note is that of an answer, or of a call whose function has returned. -/
theorem answer_of_note (hc : c.breaker = some breaker) (h : (system c zero).Reachable s)
    {note : Note α} (hnote : note ∈ s.notes) (htold : note ≠ .letThrough note.id)
    (hpanicked : note ≠ .panicked note.id) :
    (∃ a ∈ s.answers, a.id = note.id ∧ note ∈ a.story) ∨
      ∃ call change result, .finishing call change result ∈ s.flights ∧
        note = .told call.id result := by
  obtain ⟨p, hp, hid, hmem⟩ := (books_of_reachable hc h).1.story_of_note hnote htold hpanicked
  rcases List.mem_append.mp hp with hflight | hanswer
  -- a call inside the breaker: only one that is about to return has told its outcome
  · right
    obtain ⟨flight, hf, hstory⟩ := List.mem_filterMap.mp hflight
    cases flight with
    | admitted call callback adm =>
      cases hstory
      rw [List.mem_singleton] at hmem
      rw [hmem] at htold
      exact absurd rfl htold
    | finishing call change result =>
      cases hstory
      simp only [List.mem_cons, List.not_mem_nil, or_false] at hmem
      rcases hmem with hmem | hmem
      · exact ⟨call, change, result, hf, hmem⟩
      · rw [hmem] at htold
        exact absurd rfl htold
    | observer change => cases hstory
  · left
    obtain ⟨a, ha, rfl⟩ := List.mem_map.mp hanswer
    exact ⟨a, ha, hid, hmem⟩

/-- **Calls to a downstream service are accounted for.** For every interleaving of calls on one
    client:

    - its breaker is a breaker in use as any other, and the notes are its history, call by call
    - every call that has returned is one of its own; where the function was called, the breaker let
      the call in and was told its outcome, once; where it was not, the breaker turned the call away,
      and the outcome is `ErrCircuitOpen`
    - the breaker turned away nothing else, and was told nothing else but the outcomes of calls that
      are about to return
    - latency was observed once for each call, and errors were counted once for each failed one
    - a call returns the value of its function, or the zero value with the error, which only a client
      that fails open suppresses -/
theorem downstream_calls_accounted {breaker : BreakerConfig} (hc : c.breaker = some breaker)
    (h : (system c zero).Reachable s) :
    ((breakerSystem breaker).Reachable s.view ∧
      s.log.filterMap mark? = s.notes.map Note.mark) ∧
    ((s.answers.map (·.id)).Nodup ∧ ∀ a ∈ s.answers,
      (a.ran = true → notesOf a.id s.notes = [.told a.id a.outcome, .letThrough a.id]) ∧
      (a.ran = false →
        notesOf a.id s.notes = [.turnedAway a.id] ∧ a.outcome = .error .circuitOpen)) ∧
    ((∀ id, .turnedAway id ∈ s.notes → ∃ a ∈ s.answers, a.id = id ∧ a.ran = false) ∧
      ∀ id outcome, .told id outcome ∈ s.notes →
        (∃ a ∈ s.answers, a.id = id ∧ a.ran = true ∧ a.outcome = outcome) ∨
        ∃ op change, .finishing ⟨id, op⟩ change outcome ∈ s.flights) ∧
    ((c.metrics.latency = true → s.latency = s.answers.map Answer.label) ∧
      (c.metrics.errors = true →
        s.errors = (s.answers.filter Answer.failed).map Answer.label)) ∧
    ∀ a ∈ s.answers,
      (∀ value, a.outcome = .ok value → a.value = value ∧ a.err = none) ∧
      (∀ err, a.outcome = .error err →
        a.value = zero ∧ a.err = if c.mode = .failOpen then none else some err) := by
  have hrecorded := recorded_of_reachable h
  obtain ⟨hbooks, hmarks⟩ := books_of_reachable hc h
  have hstory : ∀ a ∈ s.answers, notesOf a.id s.notes = a.story := fun a ha =>
    (hbooks.tells (a.id, a.story) (List.mem_append_right _ (List.mem_map_of_mem ha))).2
  refine ⟨⟨view_of_reachable hc h, hmarks⟩, ⟨?_, fun a ha => ⟨fun hran => ?_, fun hran => ⟨?_, ?_⟩⟩⟩,
    ⟨?_, ?_⟩, ⟨?_, ?_⟩, ?_⟩
  -- the ids of the answers are among those of the stories
  · have hunique := hbooks.unique
    rw [Sys.stories, List.map_append, List.map_map] at hunique
    exact hunique.of_append_right
  · rw [hstory a ha, Answer.story, if_pos hran]
  · rw [hstory a ha, Answer.story, hran]
    rfl
  · exact outcome_of_not_ran hc h a ha hran
  -- a call is turned away and answered in one step, so it cannot be about to return
  · intro id hid
    rcases answer_of_note hc h hid (by simp) (by simp) with ⟨a, ha, haid, hmem⟩ | ⟨_, _, _, -, heq⟩
    · refine ⟨a, ha, haid, ?_⟩
      cases hran : a.ran with
      | false => rfl
      | true => simp [Answer.story, hran] at hmem
    · cases heq
  -- the breaker is told before the call returns
  · intro id outcome hid
    rcases answer_of_note hc h hid (by simp) (by simp) with
      ⟨a, ha, haid, hmem⟩ | ⟨call, change, result, hf, heq⟩
    · left
      refine ⟨a, ha, haid, ?_⟩
      cases hran : a.ran with
      | false => simp [Answer.story, hran] at hmem
      | true =>
        simp only [Answer.story, hran, if_true, List.mem_cons, List.not_mem_nil, or_false,
          Note.told.injEq, reduceCtorEq] at hmem
        exact ⟨rfl, hmem.2.symm⟩
    · right
      cases heq
      exact ⟨call.op, change, hf⟩
  · intro hset
    rw [hrecorded.latency, if_pos hset]
  · intro hset
    rw [hrecorded.errors, if_pos hset]
  · intro a ha
    have hanswer := hrecorded.answers a ha
    refine ⟨fun value hok => ?_, fun err herr => ?_⟩
    · rw [hok] at hanswer
      rw [hanswer]
      exact ⟨rfl, rfl⟩
    · rw [herr] at hanswer
      rw [hanswer]
      refine ⟨rfl, ?_⟩
      change c.mode.failureResult err = _
      cases c.mode <;> rfl

end

def touchy : Client := ⟨"svc", .failOpen, some ⟨1, .second, 1, false⟩, ⟨true, true⟩⟩

/-- A call whose function was turned away by another client, and one that is turned away itself: both
    end with `ErrCircuitOpen`, which is hidden, and the breaker knows them apart. -/
theorem downstream_calls_accounted_of_failOpen :
    ∃ s : Sys Nat, (system touchy 0).Reachable s ∧ s.breaker.state = .stateOpen ∧
      s.answers.map Answer.outcome = [.error .circuitOpen, .error .circuitOpen] ∧
      s.answers.map Answer.err = [none, none] ∧ s.errors = ["get", "call"] ∧
      s.notes = [.turnedAway 1, .told 0 (.error .circuitOpen), .letThrough 0] ∧
      ∃ a ∈ s.answers, a.id = 1 ∧ a.ran = false := by
  have hrun : ∃ s : Sys Nat,
      (system touchy 0).run initial
        [.call "" 0, .done 0 (.error .circuitOpen) 0, .call "get" 0] = some s ∧
      s.breaker.state = .stateOpen ∧
      s.answers.map Answer.outcome = [.error .circuitOpen, .error .circuitOpen] ∧
      s.answers.map Answer.err = [none, none] ∧ s.errors = ["get", "call"] ∧
      s.notes = [.turnedAway 1, .told 0 (.error .circuitOpen), .letThrough 0] :=
    ⟨_, rfl, rfl, rfl, rfl, rfl, rfl⟩
  obtain ⟨s, hrun, hstate, houtcomes, herr, herrors, hnotes⟩ := hrun
  have hreach := System.Reachable.run (.init rfl) hrun
  have hturned := (downstream_calls_accounted rfl hreach).2.2.1.1 1 (by simp [hnotes])
  exact ⟨s, hreach, hstate, houtcomes, herr, herrors, hnotes, hturned⟩

/-! ## Two failure modes -/

def Sys.reanswer (c : Client) (zero : α) (s : Sys α) : Sys α :=
  { s with answers := s.answers.map fun a => c.answer zero a.toTicket a.ran a.outcome }

section

variable {c c' : Client} {zero : α}

theorem reanswer_finish (hmetrics : c'.metrics = c.metrics) (s : Sys α) (call : Ticket)
    (ran : Bool) (outcome : Except CallError α) :
    (s.finish c zero call ran outcome).reanswer c' zero =
      (s.reanswer c' zero).finish c' zero call ran outcome := by
  simp only [Sys.finish, Sys.reanswer, List.map_cons, answer_ticket, answer_ran, answer_outcome,
    Client.recordLatency, Client.recordError, hmetrics]

/-- The failure mode plays no part in a step but for the error that a call returns. -/
theorem guarded_reanswer (hmetrics : c'.metrics = c.metrics) (cfg : Settings) (s : Sys α)
    (e : Event α) :
    guarded c' cfg zero (s.reanswer c' zero) e =
      (guarded c cfg zero s e).map (Sys.reanswer c' zero) := by
  cases e with
  | call op now =>
    simp only [guarded, Sys.reanswer]
    split
    · simp only [Option.map_some, reanswer_finish hmetrics]
      rfl
    · rfl
  | done i result now =>
    simp only [guarded, show (s.reanswer c' zero).flights = s.flights from rfl,
      show (s.reanswer c' zero).breaker = s.breaker from rfl]
    -- only the end of a call reads the mode
    cases s.flights[i]? with
    | none => rfl
    | some flight =>
      cases flight with
      | admitted call callback adm =>
        cases callback with
        | some owed => rfl
        | none =>
          cases hchange : owedCallback cfg
              (s.breaker.after cfg now adm.wasProbe (errOf result)).2 with
          | none =>
            simp only [hchange, Option.map_some, reanswer_finish hmetrics]
            rfl
          | some change =>
            simp only [hchange, Option.map_some]
            rfl
      | finishing | observer => rfl
  | panic i =>
    simp only [guarded, show (s.reanswer c' zero).flights = s.flights from rfl]
    cases s.flights[i]? with
    | none => rfl
    | some flight =>
      cases flight with
      | admitted call callback adm => cases callback <;> rfl
      | finishing | observer => rfl
  | callback i =>
    simp only [guarded, show (s.reanswer c' zero).flights = s.flights from rfl]
    cases s.flights[i]? with
    | none => rfl
    | some flight =>
      cases flight with
      | admitted call callback adm => cases callback <;> rfl
      | finishing call change result =>
        simp only [Option.map_some, reanswer_finish hmetrics]
        rfl
      | observer => rfl
  | state now | reset | direct op result => rfl

theorem step_reanswer (hbreaker : c'.breaker = c.breaker) (hmetrics : c'.metrics = c.metrics)
    (s : Sys α) (e : Event α) :
    step c' zero (s.reanswer c' zero) e = (step c zero s e).map (Sys.reanswer c' zero) := by
  simp only [step, hbreaker]
  cases c.breaker with
  | some breaker => exact guarded_reanswer hmetrics _ s e
  | none =>
    cases e with
    | direct op result =>
      exact congrArg some (reanswer_finish hmetrics { s with next := s.next + 1 } ⟨s.next, op⟩ true
        result).symm
    | _ => rfl

theorem run_reanswer (hbreaker : c'.breaker = c.breaker) (hmetrics : c'.metrics = c.metrics)
    (es : List (Event α)) (s : Sys α) :
    (system c' zero).run (s.reanswer c' zero) es =
      ((system c zero).run s es).map (Sys.reanswer c' zero) := by
  induction es generalizing s with
  | nil => rfl
  | cons e es ih =>
    have hstep : (system c' zero).step (s.reanswer c' zero) e =
        ((system c zero).step s e).map (Sys.reanswer c' zero) :=
      step_reanswer hbreaker hmetrics s e
    rw [System.run_cons, System.run_cons, hstep, Option.bind_map, Option.map_bind]
    exact Option.bind_congr fun s' _ => ih s'

/-- **The failure mode decides about the returned error and nothing else.** Take two clients that
    differ in their failure mode only, and any schedule of calls, functions that return, fail or
    panic, callbacks and resets. If the first can follow it, so can the second, and then their
    breakers, the calls under way, the metrics and the values of all answers are the same; a client
    that fails open returns no error at all. -/
theorem failure_mode_only_hides_errors (c : Client) (mode : FailureMode) (zero : α)
    (es : List (Event α)) {s : Sys α} (h : (system c zero).run initial es = some s) :
    ∃ s', (system { c with mode := mode } zero).run initial es = some s' ∧
      s'.view = s.view ∧ s'.flights = s.flights ∧ s'.latency = s.latency ∧ s'.errors = s.errors ∧
      s'.answers.map (fun a => (a.op, a.outcome, a.value)) =
        s.answers.map (fun a => (a.op, a.outcome, a.value)) ∧
      (mode = .failOpen → ∀ a ∈ s'.answers, a.err = none) := by
  let c' : Client := { c with mode := mode }
  have hbreaker : c'.breaker = c.breaker := rfl
  have hmetrics : c'.metrics = c.metrics := rfl
  have hrun : (system c' zero).run initial es = some (s.reanswer c' zero) := by
    calc (system c' zero).run initial es
        = ((system c zero).run initial es).map (Sys.reanswer c' zero) :=
          run_reanswer hbreaker hmetrics es initial
      _ = some (s.reanswer c' zero) := by rw [h, Option.map_some]
  refine ⟨s.reanswer c' zero, hrun, rfl, rfl, rfl, rfl, ?_, ?_⟩
  -- an answer of the first client already has the value the second would give
  · have hanswers := (recorded_of_reachable (System.Reachable.run (.init rfl) h)).answers
    simp only [Sys.reanswer, List.map_map]
    refine List.map_congr_left fun a ha => ?_
    have hvalue : a.value = (c.answer zero a.toTicket a.ran a.outcome).value :=
      congrArg Answer.value (hanswers a ha)
    rw [Function.comp_apply, answer_ticket, answer_outcome, hvalue, answer_value c']
  · rintro rfl a ha
    obtain ⟨a, -, rfl⟩ := List.mem_map.mp ha
    exact answer_err_of_failOpen rfl _ _ a.outcome

/-- A call that fails and one that is turned away, on a client that fails closed. -/
theorem failure_mode_only_hides_errors_of_failOpen :
    ∃ s s' : Sys Nat, (system touchy 0).run initial
        [.call "" 0, .done 0 (.error (.other "down")) 0, .call "get" 0] = some s ∧
      (system { touchy with mode := .failClosed } 0).run initial
        [.call "" 0, .done 0 (.error (.other "down")) 0, .call "get" 0] = some s' ∧
      s'.view = s.view := by
  obtain ⟨s, hrun⟩ : ∃ s : Sys Nat, (system touchy 0).run initial
      [.call "" 0, .done 0 (.error (.other "down")) 0, .call "get" 0] = some s := ⟨_, rfl⟩
  obtain ⟨s', hrun', hview, -⟩ := failure_mode_only_hides_errors touchy .failClosed 0 _ hrun
  exact ⟨s, s', hrun, hrun', hview⟩

end

end ServiceRuntime.Downstream
