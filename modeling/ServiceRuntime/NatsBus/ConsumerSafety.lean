import ServiceRuntime.NatsBus.Consumer

/-!
# What the Consumer Acknowledges

Every entry of the log is justified by what is older (`Reason`): a handler starts when the one
before it has returned, and at most once after the subscription was closed; the callback
acknowledges a message only after the handler has returned nil for it, asks for it again only after
an error, and nothing is sent for a delivery that has been answered. So a message that the server
does not deliver again has been handled, or the handler itself has settled it; all others come back,
those in hand at shutdown included.

The invariant behind it (`Tracks`) ties the queue, the goroutine of the subscription and the flag
`ackd` to the log.
-/

namespace ServiceRuntime.NatsBus.Consumer

open Sync Transition

/-! ## Reading the log -/

def startedIds (log : List Note) : List Nat :=
  log.filterMap fun
    | .started id _ => some id
    | _ => none

def returnedIds (log : List Note) : List Nat :=
  log.filterMap fun
    | .returned id _ _ => some id
    | _ => none

/-- The deliveries that have been answered: by a reply that was sent without an error, and that is
    more than a sign of progress. -/
def answeredIds (log : List Note) : List Nat :=
  log.filterMap fun
    | .sent reply confirmed =>
      if confirmed = true ∧ reply.kind ≠ .inProgress then some reply.id else none
    | _ => none

/-- How many handlers were called after the subscription had been closed. -/
def startsAfterClose : List Note → Nat
  | [] => 0
  | .started _ _ :: log => (if .closed ∈ log then 1 else 0) + startsAfterClose log
  | _ :: log => startsAfterClose log

/-- The errors that calls of `Drain` returned. -/
def drains (log : List Note) : List (Option String) :=
  log.filterMap fun
    | .drained err => some err
    | _ => none

def Reply.Reason (reply : Reply) (older : List Note) : Prop :=
  match reply.sender, reply.kind with
  | .callback, .ack => .returned reply.id reply.seq none ∈ older
  | .callback, .nak => ∃ err, .returned reply.id reply.seq (some err) ∈ older
  | .callback, _ => False
  | .handler, _ => .started reply.id reply.seq ∈ older

def Reason : Note → List Note → Prop
  | .started id _, older =>
    id ∉ startedIds older ∧ startsAfterClose older = 0 ∧
      ∀ k ∈ startedIds older, k ∈ returnedIds older
  | .returned id seq _, older => .started id seq ∈ older ∧ id ∉ returnedIds older
  | .sent reply _, older =>
    .disconnected ∉ older ∧ reply.id ∉ answeredIds older ∧ reply.Reason older
  | .drained _, older => drains older = []
  | .disconnected, older => .disconnected ∉ older ∧ drains older ≠ []
  | .closed, older => .closed ∉ older ∧ .disconnected ∈ older

section

variable {log : List Note} {id seq : Nat}

theorem mem_startedIds : id ∈ startedIds log ↔ ∃ seq, .started id seq ∈ log := by
  constructor
  · intro h
    obtain ⟨note, hnote, hid⟩ := List.mem_filterMap.mp h
    cases note with
    | started k seq =>
      cases hid
      exact ⟨seq, hnote⟩
    | _ => cases hid
  · rintro ⟨seq, h⟩
    exact List.mem_filterMap.mpr ⟨_, h, rfl⟩

theorem mem_returnedIds : id ∈ returnedIds log ↔ ∃ seq err, .returned id seq err ∈ log := by
  constructor
  · intro h
    obtain ⟨note, hnote, hid⟩ := List.mem_filterMap.mp h
    cases note with
    | returned k seq err =>
      cases hid
      exact ⟨seq, err, hnote⟩
    | _ => cases hid
  · rintro ⟨seq, err, h⟩
    exact List.mem_filterMap.mpr ⟨_, h, rfl⟩

theorem mem_answeredIds :
    id ∈ answeredIds log ↔
      ∃ reply, .sent reply true ∈ log ∧ reply.kind ≠ .inProgress ∧ reply.id = id := by
  constructor
  · intro h
    obtain ⟨note, hnote, hid⟩ := List.mem_filterMap.mp h
    cases note with
    | sent reply confirmed =>
      simp only at hid
      split at hid
      · rename_i hgood
        cases hid
        exact ⟨reply, hgood.1 ▸ hnote, hgood.2, rfl⟩
      · cases hid
    | _ => cases hid
  · rintro ⟨reply, h, hkind, rfl⟩
    exact List.mem_filterMap.mpr ⟨_, h, if_pos ⟨rfl, hkind⟩⟩

theorem startsAfterClose_eq_zero (h : .closed ∉ log) : startsAfterClose log = 0 := by
  induction log with
  | nil => rfl
  | cons note log ih =>
    have hlog : .closed ∉ log := fun hmem => h (List.mem_cons_of_mem _ hmem)
    cases note with
    | started id seq => rw [startsAfterClose, if_neg hlog, ih hlog]
    | _ => exact ih hlog

theorem started_of_returned (h : Justified Reason log) {err : Option String}
    (hnote : .returned id seq err ∈ log) : .started id seq ∈ log := by
  obtain ⟨newer, older, rfl⟩ := List.append_of_mem hnote
  exact List.mem_append_right _ (List.mem_cons_of_mem _ h.of_split.1)

theorem started_of_sent (h : Justified Reason log) {reply : Reply} {confirmed : Bool}
    (hnote : .sent reply confirmed ∈ log) : .started reply.id reply.seq ∈ log := by
  obtain ⟨newer, older, rfl⟩ := List.append_of_mem hnote
  obtain ⟨-, -, hreason⟩ := h.of_split
  have hold : Justified Reason older := h.of_older
  have hlift : ∀ note ∈ older, note ∈ newer ++ .sent reply confirmed :: older := fun note hn =>
    List.mem_append_right _ (List.mem_cons_of_mem _ hn)
  obtain ⟨id, seq, kind, sender⟩ := reply
  cases sender with
  | handler => exact hlift _ hreason
  | callback =>
    cases kind with
    | ack => exact hlift _ (started_of_returned hold hreason)
    | nak =>
      obtain ⟨err, hreturned⟩ := hreason
      exact hlift _ (started_of_returned hold hreturned)
    | term | inProgress => exact hreason.elim

theorem startedIds_of_answered (h : Justified Reason log) (hid : id ∈ answeredIds log) :
    id ∈ startedIds log := by
  obtain ⟨reply, hsent, -, rfl⟩ := mem_answeredIds.mp hid
  exact mem_startedIds.mpr ⟨_, started_of_sent h hsent⟩

end

/-! ## The subscription and its log -/

variable {s s' : Sys} {e : Event} {log : List Note}

/-- What the log says about where the goroutine of the subscription is. -/
def Loop.Tracks (log : List Note) : Loop → Prop
  | .idle => ∀ k ∈ startedIds log, k ∈ returnedIds log
  | .exited => ∀ k ∈ startedIds log, k ∈ returnedIds log
  | .taken _ => startsAfterClose log = 0 ∧ ∀ k ∈ startedIds log, k ∈ returnedIds log
  | .handling d =>
    .started d.id d.seq ∈ log ∧ d.id ∉ returnedIds log ∧
      (∀ k ∈ startedIds log, k ≠ d.id → k ∈ returnedIds log) ∧
      (d.ackd = true ↔ d.id ∈ answeredIds log)
  | .replying d err =>
    .returned d.id d.seq err ∈ log ∧ (∀ k ∈ startedIds log, k ∈ returnedIds log) ∧
      (d.ackd = true ↔ d.id ∈ answeredIds log)

/-- What the log says about `cleanFn`. -/
structure Cleanup.Tracks (log : List Note) (c : Cleanup) : Prop where
  closed : c.closed = true ↔ .closed ∈ log
  disconnected : c.disconnected = true ↔ .disconnected ∈ log
  drained : c.drained = true ↔ drains log ≠ []
  cleanup : (drains log = [] ∧ c.cleanup = none) ∨ drains log = [c.cleanup]

def Sys.unseen (s : Sys) : List Delivery :=
  match s.loop with
  | .taken d => d :: s.queue
  | _ => s.queue

/-- The parts of the consumer and its log belong together. -/
structure Tracks (s : Sys) : Prop where
  justified : Justified Reason s.log
  queued : ∀ d ∈ s.unseen, d.ackd = false ∧ d.id < s.next ∧ d.id ∉ startedIds s.log
  nodup : (s.unseen.map Delivery.id).Nodup
  old : ∀ id ∈ startedIds s.log, id < s.next
  loop : s.loop.Tracks s.log
  cleanup : s.once.shared.Tracks s.log
  wire : ∀ reply ∈ s.wire, ∃ confirmed, .sent reply confirmed ∈ s.log
  settled : ∀ seq ∈ s.settled, ∃ reply confirmed, .sent reply confirmed ∈ s.log ∧
    reply.seq = seq ∧ reply.kind.settles = true

theorem tracks_initial : Tracks initial where
  justified := trivial
  queued _ h := by cases h
  nodup := List.nodup_nil
  old _ h := by cases h
  loop _ h := by cases h
  cleanup := ⟨⟨fun h => (by cases h), fun h => (by cases h)⟩,
    ⟨fun h => (by cases h), fun h => (by cases h)⟩,
    ⟨fun h => (by cases h), fun h => absurd rfl h⟩, .inl ⟨rfl, rfl⟩⟩
  wire _ h := by cases h
  settled _ h := by cases h

/-- Everything `ackReply` can do: nothing, or publish the reply to a message that has not been
    answered, on a connection that is open; the message is answered if there was no error. -/
theorem ackReply_cases (disconnected : Bool) (sending : Sending) (d : Delivery) (kind : AckKind) :
    ackReply disconnected sending d kind = (d, .refused) ∨
    (d.ackd = false ∧ disconnected = false ∧
      (ackReply disconnected sending d kind = (d, .unconfirmed) ∨
        ackReply disconnected sending d kind =
          ({ d with ackd := kind ≠ .inProgress }, .confirmed))) := by
  unfold ackReply
  by_cases hrefused : d.ackd = true ∨ disconnected = true
  · exact .inl (if_pos hrefused)
  · rw [if_neg hrefused]
    rw [not_or, Bool.not_eq_true, Bool.not_eq_true] at hrefused
    cases sending with
    | refused => exact .inl rfl
    | unconfirmed => exact .inr ⟨hrefused.1, hrefused.2, .inl rfl⟩
    | confirmed => exact .inr ⟨hrefused.1, hrefused.2, .inr rfl⟩

/-- What a reply changes: nothing but the place of the goroutine, or also the wire and the log. -/
theorem answer_cases (s : Sys) (d : Delivery) (kind : AckKind) (sender : Sender)
    (sending : Sending) (loop : Delivery → Loop) :
    s.answer d kind sender sending loop = { s with loop := loop d } ∨
    (d.ackd = false ∧ s.once.shared.disconnected = false ∧ ∃ confirmed,
      s.answer d kind sender sending loop =
        { s with
          loop := loop (if confirmed then { d with ackd := kind ≠ .inProgress } else d)
          wire := ⟨d.id, d.seq, kind, sender⟩ :: s.wire
          log := .sent ⟨d.id, d.seq, kind, sender⟩ confirmed :: s.log }) := by
  rcases ackReply_cases s.once.shared.disconnected sending d kind with
    heq | ⟨hackd, hopen, heq | heq⟩
  · exact .inl (by simp [Sys.answer, heq])
  · exact .inr ⟨hackd, hopen, false, by simp [Sys.answer, heq]⟩
  · exact .inr ⟨hackd, hopen, true, by simp [Sys.answer, heq]⟩

variable {c c' : Cleanup} {d : Delivery}

theorem Cleanup.Tracks.other (h : c.Tracks log) {note : Note} (hclosed : note ≠ .closed)
    (hdisconnected : note ≠ .disconnected) (hdrains : drains (note :: log) = drains log) :
    c.Tracks (note :: log) where
  closed := by rw [h.closed, List.mem_cons, or_iff_right hclosed.symm]
  disconnected := by rw [h.disconnected, List.mem_cons, or_iff_right hdisconnected.symm]
  drained := by rw [hdrains, h.drained]
  cleanup := by rw [hdrains]; exact h.cleanup

/-- **A reply**: it may be sent when the delivery has not been answered and there is a reason. -/
theorem Tracks.answer (h : Tracks s) {kind : AckKind} {sender : Sender} (sending : Sending)
    {loop : Delivery → Loop} (hackd : d.ackd = true ↔ d.id ∈ answeredIds s.log)
    (hreason : Reply.Reason ⟨d.id, d.seq, kind, sender⟩ s.log) (hseen : s.unseen = s.queue)
    (hloop : ∀ d' d'', loop d' ≠ .taken d'') (hsame : (loop d).Tracks s.log)
    (hafter : d.id ∉ answeredIds s.log → ∀ confirmed : Bool,
      (loop (if confirmed then { d with ackd := kind ≠ .inProgress } else d)).Tracks
        (.sent ⟨d.id, d.seq, kind, sender⟩ confirmed :: s.log)) :
    Tracks (s.answer d kind sender sending loop) := by
  -- the goroutine has a message in hand before and after, so none is between queue and handler
  have hunseen : ∀ d' wire log, Sys.unseen { s with loop := loop d', wire := wire, log := log } =
      s.unseen := by
    intro d' wire log
    rw [hseen, Sys.unseen]
    split
    · rename_i hd'
      exact absurd hd' (hloop _ _)
    · rfl
  rcases answer_cases s d kind sender sending loop with heq | ⟨hnot, hopen, confirmed, heq⟩
  · rw [heq]
    exact { h with
      queued := by rw [hunseen d s.wire s.log]; exact h.queued
      nodup := by rw [hunseen d s.wire s.log]; exact h.nodup
      loop := hsame }
  · rw [heq]
    have hclosed : .disconnected ∉ s.log := fun hmem =>
      Bool.false_ne_true (hopen.symm.trans (h.cleanup.disconnected.mpr hmem))
    have hnew : d.id ∉ answeredIds s.log := fun hmem =>
      Bool.false_ne_true (hnot.symm.trans (hackd.mpr hmem))
    exact
      { h with
        justified := ⟨⟨hclosed, hnew, hreason⟩, h.justified⟩
        queued := by rw [hunseen]; exact h.queued
        nodup := by rw [hunseen]; exact h.nodup
        loop := hafter hnew confirmed
        cleanup := h.cleanup.other (by simp) (by simp) rfl
        wire := by
          intro reply hreply
          rcases List.mem_cons.mp hreply with rfl | hreply
          · exact ⟨confirmed, List.mem_cons_self⟩
          · obtain ⟨confirmed', hsent⟩ := h.wire reply hreply
            exact ⟨confirmed', List.mem_cons_of_mem _ hsent⟩
        settled := fun seq hseq => (h.settled seq hseq).imp fun reply => .imp fun _ hsent =>
          ⟨List.mem_cons_of_mem _ hsent.1, hsent.2⟩ }

/-- **A delivery**: it gets a number of its own. -/
theorem Tracks.deliver (h : Tracks s) (seq : Nat) :
    Tracks { s with queue := s.queue ++ [⟨s.next, seq, false⟩], next := s.next + 1 } := by
  have hunseen : Sys.unseen { s with
      queue := s.queue ++ [⟨s.next, seq, false⟩], next := s.next + 1 } =
      s.unseen ++ [⟨s.next, seq, false⟩] := by
    unfold Sys.unseen
    cases s.loop <;> rfl
  -- the number is above those of all deliveries so far
  have hqueue : ∀ d ∈ s.unseen ++ [Delivery.mk s.next seq false],
      d.ackd = false ∧ d.id < s.next + 1 ∧ d.id ∉ startedIds s.log := by
    intro d hd
    rcases List.mem_append.mp hd with hold | hnew
    · obtain ⟨hackd, hlt, hid⟩ := h.queued d hold
      exact ⟨hackd, Nat.lt_succ_of_lt hlt, hid⟩
    · rw [List.mem_singleton.mp hnew]
      exact ⟨rfl, Nat.lt_succ_self _, fun hid => Nat.lt_irrefl _ (h.old _ hid)⟩
  have hnodup : ((s.unseen ++ [Delivery.mk s.next seq false]).map Delivery.id).Nodup := by
    rw [List.map_append, List.nodup_append]
    refine ⟨h.nodup, List.nodup_singleton _, ?_⟩
    intro a ha b hb
    obtain ⟨d, hd, rfl⟩ := List.mem_map.mp ha
    rw [List.mem_singleton.mp hb]
    exact Nat.ne_of_lt (h.queued d hd).2.1
  exact { h with
    queued := by rw [hunseen]; exact hqueue
    nodup := by rw [hunseen]; exact hnodup
    old := fun id hid => Nat.lt_succ_of_lt (h.old id hid) }

/-- **A message is taken**, from an open subscription. -/
theorem Tracks.take (h : Tracks s) {queue : List Delivery} (hloop : s.loop = .idle)
    (hqueue : s.queue = d :: queue) (hopen : s.closed = false) :
    Tracks { s with loop := .taken d, queue := queue } := by
  have hunseen : Sys.unseen { s with loop := .taken d, queue := queue } = s.unseen := by
    simp only [Sys.unseen, hloop, hqueue]
  have hidle : ∀ k ∈ startedIds s.log, k ∈ returnedIds s.log := by
    have := h.loop
    rwa [hloop] at this
  have hclosed : .closed ∉ s.log := fun hmem =>
    Bool.false_ne_true (hopen.symm.trans (h.cleanup.closed.mpr hmem))
  exact { h with
    queued := by rw [hunseen]; exact h.queued
    nodup := by rw [hunseen]; exact h.nodup
    loop := ⟨startsAfterClose_eq_zero hclosed, hidle⟩ }

/-- **A handler starts**, with a delivery that no handler has seen. -/
theorem Tracks.start (h : Tracks s) (hloop : s.loop = .taken d) :
    Tracks { s with loop := .handling d, log := .started d.id d.seq :: s.log } := by
  have hunseen : s.unseen = d :: s.queue := by simp only [Sys.unseen, hloop]
  obtain ⟨hackd, hlt, hnew⟩ := h.queued d (hunseen ▸ List.mem_cons_self)
  have htaken := h.loop
  rw [hloop] at htaken
  obtain ⟨hlate, hidle⟩ := htaken
  have hnodup := h.nodup
  rw [hunseen, List.map_cons, List.nodup_cons] at hnodup
  -- who has not started has neither answered nor returned
  have hunanswered : d.id ∉ answeredIds s.log := fun hid =>
    hnew (startedIds_of_answered h.justified hid)
  have hunreturned : d.id ∉ returnedIds s.log := by
    intro hid
    obtain ⟨seq, err, hnote⟩ := mem_returnedIds.mp hid
    exact hnew (mem_startedIds.mpr ⟨seq, started_of_returned h.justified hnote⟩)
  exact
    { justified := ⟨⟨hnew, hlate, hidle⟩, h.justified⟩
      queued := by
        intro d' hd'
        obtain ⟨hackd', hlt', hid'⟩ := h.queued d' (hunseen ▸ List.mem_cons_of_mem _ hd')
        refine ⟨hackd', hlt', ?_⟩
        intro hmem
        rcases List.mem_cons.mp hmem with heq | hmem
        · exact hnodup.1 (heq ▸ List.mem_map_of_mem hd')
        · exact hid' hmem
      nodup := hnodup.2
      old := by
        intro id hid
        rcases List.mem_cons.mp hid with rfl | hid
        · exact hlt
        · exact h.old id hid
      loop := by
        refine ⟨List.mem_cons_self, hunreturned, ?_, ?_⟩
        · intro k hk hne
          rcases List.mem_cons.mp hk with rfl | hk
          · exact absurd rfl hne
          · exact hidle k hk
        · exact ⟨fun hd => absurd (hackd.symm.trans hd) Bool.false_ne_true,
            fun hid => absurd hid hunanswered⟩
      cleanup := h.cleanup.other (by simp) (by simp) rfl
      wire := fun reply hreply => (h.wire reply hreply).imp fun _ => List.mem_cons_of_mem _
      settled := fun seq hseq => (h.settled seq hseq).imp fun reply => .imp fun _ hsent =>
        ⟨List.mem_cons_of_mem _ hsent.1, hsent.2⟩ }

theorem Tracks.handled (h : Tracks s) (err : Option String) (hloop : s.loop = .handling d) :
    Tracks { s with loop := .replying d err, log := .returned d.id d.seq err :: s.log } := by
  have hhandling := h.loop
  rw [hloop] at hhandling
  obtain ⟨hstarted, hunreturned, hothers, hackd⟩ := hhandling
  have hunseen : s.unseen = s.queue := by simp only [Sys.unseen, hloop]
  exact
    { h with
      justified := ⟨⟨hstarted, hunreturned⟩, h.justified⟩
      loop := by
        refine ⟨List.mem_cons_self, ?_, hackd⟩
        intro k hk
        by_cases hne : k = d.id
        · exact hne ▸ List.mem_cons_self
        · exact List.mem_cons_of_mem _ (hothers k hk hne)
      queued := fun d' hd' => h.queued d' (hunseen ▸ hd')
      nodup := hunseen ▸ h.nodup
      cleanup := h.cleanup.other (by simp) (by simp) rfl
      wire := fun reply hreply => (h.wire reply hreply).imp fun _ => List.mem_cons_of_mem _
      settled := fun seq hseq => (h.settled seq hseq).imp fun reply => .imp fun _ hsent =>
        ⟨List.mem_cons_of_mem _ hsent.1, hsent.2⟩ }

/-! ## The steps of `cleanFn` -/

/-- `Drain` comes first, and once. -/
theorem Cleanup.Tracks.drain {err : Option String} (h : c.Tracks log)
    (hstep : cleanFn.step c (.drain err) = some c') :
    drains log = [] ∧ c'.Tracks (.drained err :: log) := by
  simp only [cleanFn] at hstep
  split at hstep
  · cases hstep
  · rename_i hnot
    cases hstep
    have hnone : drains log = [] := by
      by_contra hne
      exact hnot (h.drained.mpr hne)
    -- no error has been kept yet, so that of `Drain` is
    have hcleanup : c.cleanup = none := by
      rcases h.cleanup with ⟨-, hc⟩ | hc
      · exact hc
      · rw [hnone] at hc
        cases hc
    refine ⟨hnone, ⟨by simpa using h.closed, by simpa using h.disconnected,
      ⟨fun _ => List.cons_ne_nil _ _, fun _ => rfl⟩, ?_⟩⟩
    right
    change err :: drains log = _
    rw [hnone, hcleanup]
    cases err <;> rfl

theorem Cleanup.Tracks.disconnect (h : c.Tracks log)
    (hstep : cleanFn.step c .disconnect = some c') :
    (.disconnected ∉ log ∧ drains log ≠ []) ∧ c'.Tracks (.disconnected :: log) := by
  simp only [cleanFn] at hstep
  split at hstep
  · rename_i hguard
    cases hstep
    have hopen : .disconnected ∉ log := fun hmem =>
      Bool.false_ne_true (hguard.2.symm.trans (h.disconnected.mpr hmem))
    exact ⟨⟨hopen, h.drained.mp hguard.1⟩, ⟨by simpa using h.closed,
      ⟨fun _ => List.mem_cons_self, fun _ => rfl⟩, h.drained, h.cleanup⟩⟩
  · cases hstep

theorem Cleanup.Tracks.close (h : c.Tracks log) (hstep : cleanFn.step c .close = some c') :
    (.closed ∉ log ∧ .disconnected ∈ log) ∧ c'.Tracks (.closed :: log) := by
  simp only [cleanFn] at hstep
  split at hstep
  · rename_i hguard
    cases hstep
    have hopen : .closed ∉ log := fun hmem =>
      Bool.false_ne_true (hguard.2.symm.trans (h.closed.mpr hmem))
    exact ⟨⟨hopen, h.disconnected.mp hguard.1⟩, ⟨⟨fun _ => List.mem_cons_self, fun _ => rfl⟩,
      by simpa using h.disconnected, h.drained, h.cleanup⟩⟩
  · cases hstep

theorem ids_cleanupNotes (e : Once.Event CleanupCall) (log : List Note) :
    startedIds (cleanupNotes e ++ log) = startedIds log ∧
      returnedIds (cleanupNotes e ++ log) = returnedIds log ∧
      answeredIds (cleanupNotes e ++ log) = answeredIds log ∧
      startsAfterClose (cleanupNotes e ++ log) = startsAfterClose log := by
  cases e with
  | body call => cases call <;> exact ⟨rfl, rfl, rfl, rfl⟩
  | _ => exact ⟨rfl, rfl, rfl, rfl⟩

theorem Loop.Tracks.cleanup {loop : Loop} (h : loop.Tracks log)
    (e : Once.Event CleanupCall) : loop.Tracks (cleanupNotes e ++ log) := by
  obtain ⟨hstarted, hreturned, hanswered, hlate⟩ := ids_cleanupNotes e log
  cases loop with
  | idle | exited => rwa [Loop.Tracks, hstarted, hreturned]
  | taken d => rwa [Loop.Tracks, hstarted, hreturned, hlate]
  | handling d | replying d err =>
    rw [Loop.Tracks, hstarted, hreturned, hanswered]
    exact ⟨List.mem_append_right _ h.1, h.2⟩

/-- **A step of a shutdown**: the log gets what `cleanFn` did. -/
theorem Tracks.shutdown (h : Tracks s) {e : Once.Event CleanupCall}
    {once : Once.State Cleanup} (honce : Once.step cleanFn s.once e = some once) :
    Tracks { s with once := once, log := cleanupNotes e ++ s.log } := by
  have hcleanup : Justified Reason (cleanupNotes e ++ s.log) ∧
      once.shared.Tracks (cleanupNotes e ++ s.log) := by
    rcases Once.shared_of_step honce with ⟨call, rfl, hbody⟩ | ⟨hother, hshared⟩
    · cases call with
      | drain err =>
        obtain ⟨hreason, htracks⟩ := h.cleanup.drain hbody
        exact ⟨⟨hreason, h.justified⟩, htracks⟩
      | disconnect =>
        obtain ⟨hreason, htracks⟩ := h.cleanup.disconnect hbody
        exact ⟨⟨hreason, h.justified⟩, htracks⟩
      | close =>
        obtain ⟨hreason, htracks⟩ := h.cleanup.close hbody
        exact ⟨⟨hreason, h.justified⟩, htracks⟩
    -- only the calls of `cleanFn` leave a note
    · have hnotes : cleanupNotes e = [] := by
        cases e with
        | body call => exact absurd rfl (hother call)
        | _ => rfl
      rw [hnotes, hshared]
      exact ⟨h.justified, h.cleanup⟩
  have hstarted := (ids_cleanupNotes e s.log).1
  exact
    { justified := hcleanup.1
      queued := by
        intro d hd
        rw [hstarted]
        exact h.queued d hd
      nodup := h.nodup
      old := by
        intro id hid
        rw [hstarted] at hid
        exact h.old id hid
      loop := h.loop.cleanup e
      cleanup := hcleanup.2
      wire := fun reply hreply => (h.wire reply hreply).imp fun _ => List.mem_append_right _
      settled := fun seq hseq => (h.settled seq hseq).imp fun reply => .imp fun _ hsent =>
        ⟨List.mem_append_right _ hsent.1, hsent.2⟩ }

/-! ## Every step -/

theorem Step.tracks (hstep : Step s e s') (h : Tracks s) : Tracks s' := by
  cases hstep with
  | publish => exact { h with }
  | deliver => exact h.deliver _
  | @settle reply hwire hkind =>
    refine { h with settled := ?_ }
    intro seq hseq
    rcases List.mem_cons.mp hseq with rfl | hseq
    · obtain ⟨confirmed, hsent⟩ := h.wire reply hwire
      exact ⟨reply, confirmed, hsent, rfl, hkind⟩
    · exact h.settled seq hseq
  | hear => exact h
  | take hloop hqueue hopen => exact h.take hloop hqueue hopen
  | start hloop => exact h.start hloop
  | @respond d kind sending hloop =>
    -- the handler itself replies, before it has returned
    have hhandling := h.loop
    rw [hloop] at hhandling
    obtain ⟨hstarted, hunreturned, hothers, hackd⟩ := hhandling
    refine h.answer sending hackd hstarted (by simp only [Sys.unseen, hloop]) (by simp)
      ⟨hstarted, hunreturned, hothers, hackd⟩ fun hnew confirmed => ?_
    have hid : (if confirmed then { d with ackd := kind ≠ .inProgress } else d).id = d.id := by
      cases confirmed <;> rfl
    have hseq : (if confirmed then { d with ackd := kind ≠ .inProgress } else d).seq = d.seq := by
      cases confirmed <;> rfl
    simp only [Loop.Tracks, hid, hseq]
    refine ⟨List.mem_cons_of_mem _ hstarted, hunreturned, hothers, ?_⟩
    cases confirmed with
    | false => exact hackd
    | true =>
      -- a sign of progress leaves the delivery open, any other reply answers it
      by_cases hkind : kind = .inProgress
      · subst hkind
        exact ⟨fun hfalse => (by cases hfalse), fun hid => absurd hid hnew⟩
      · refine ⟨fun _ => ?_, fun _ => decide_eq_true hkind⟩
        exact mem_answeredIds.mpr ⟨_, List.mem_cons_self, hkind, rfl⟩
  | handled hloop => exact h.handled _ hloop
  | ack hloop =>
    have hreplying := h.loop
    rw [hloop] at hreplying
    obtain ⟨hreturned, hidle, hackd⟩ := hreplying
    exact h.answer _ hackd hreturned (by simp only [Sys.unseen, hloop]) (by simp) hidle
      fun _ _ => hidle
  | nak hloop =>
    have hreplying := h.loop
    rw [hloop] at hreplying
    obtain ⟨hreturned, hidle, hackd⟩ := hreplying
    exact h.answer _ hackd ⟨_, hreturned⟩ (by simp only [Sys.unseen, hloop]) (by simp) hidle
      fun _ _ => hidle
  | exit hloop =>
    have hidle := h.loop
    rw [hloop] at hidle
    -- what is left in the queue stays unseen
    have hunseen : s.unseen = s.queue := by simp only [Sys.unseen, hloop]
    exact { h with
      queued := fun d hd => h.queued d (hunseen ▸ hd)
      nodup := hunseen ▸ h.nodup
      loop := hidle }
  | shutdown honce => exact h.shutdown honce

theorem tracks_of_reachable (h : consumer.Reachable s) : Tracks s := by
  refine System.Reachable.invariant (P := Tracks) ?_
    (fun _ _ _ h hstep => (Step.of_step hstep).tracks h) h
  rintro s rfl
  exact tracks_initial

/-! ## Acknowledgements -/

theorem nodup_answeredIds (h : Justified Reason log) :
    (answeredIds log).Nodup := by
  induction log with
  | nil => exact List.nodup_nil
  | cons note log ih =>
    cases note with
    | sent reply confirmed =>
      by_cases hgood : confirmed = true ∧ reply.kind ≠ .inProgress
      · have hcons : answeredIds (.sent reply confirmed :: log) = reply.id :: answeredIds log :=
          List.filterMap_cons_some (if_pos hgood)
        rw [hcons, List.nodup_cons]
        exact ⟨h.1.2.1, ih h.2⟩
      · have hsame : answeredIds (.sent reply confirmed :: log) = answeredIds log :=
          List.filterMap_cons_none (if_neg hgood)
        rw [hsame]
        exact ih h.2
    | _ => exact ih h.2

theorem startsAfterClose_le_one (h : Justified Reason log) : startsAfterClose log ≤ 1 := by
  induction log with
  | nil => exact Nat.zero_le _
  | cons note log ih =>
    cases note with
    | started id seq =>
      rw [startsAfterClose, h.1.2.1]
      split <;> decide
    | _ => exact ih h.2

theorem handled_of_settled (h : Tracks s) {seq : Nat} (hseq : seq ∈ s.settled) :
    (∃ id, .returned id seq none ∈ s.log) ∨
      ∃ reply confirmed, .sent reply confirmed ∈ s.log ∧ reply.seq = seq ∧
        reply.sender = .handler ∧ reply.kind.settles = true := by
  obtain ⟨⟨id, seq', kind, sender⟩, confirmed, hsent, rfl, hkind⟩ := h.settled seq hseq
  cases sender with
  | handler => exact .inr ⟨_, confirmed, hsent, rfl, rfl, hkind⟩
  | callback =>
    obtain ⟨newer, older, hlog⟩ := List.append_of_mem hsent
    have hreason := (hlog ▸ h.justified).of_split.2.2
    cases kind with
    | ack =>
      left
      refine ⟨id, ?_⟩
      rw [hlog]
      exact List.mem_append_right _ (List.mem_cons_of_mem _ hreason)
    | nak => cases hkind
    | term => exact hreason.elim
    | inProgress => cases hkind

/-- **The consumer acknowledges what has been handled, and nothing else.** In every interleaving of
    deliveries, handler runs, replies and shutdowns: a message that the server does not deliver again
    was handled without an error, or the handler itself sent a reply that settles it; the callback
    acknowledges a delivery only after the handler has returned nil for it and asks for it again
    only after an error; nothing is sent for a delivery that a reply has answered without an error,
    nor on a connection that is being closed; and a handler starts only when the one before has
    returned, and at most one starts after the subscription was closed. -/
theorem consumer_acks_only_handled {s : Sys} (h : consumer.Reachable s) :
    (∀ seq ∈ s.settled, (∃ id, .returned id seq none ∈ s.log) ∨
      ∃ reply confirmed, .sent reply confirmed ∈ s.log ∧ reply.seq = seq ∧
        reply.sender = .handler ∧ reply.kind.settles = true) ∧
    (∀ newer older id seq confirmed,
      s.log = newer ++ .sent ⟨id, seq, .ack, .callback⟩ confirmed :: older →
        .returned id seq none ∈ older) ∧
    (∀ newer older id seq confirmed,
      s.log = newer ++ .sent ⟨id, seq, .nak, .callback⟩ confirmed :: older →
        ∃ err, .returned id seq (some err) ∈ older) ∧
    (∀ newer older reply confirmed, s.log = newer ++ .sent reply confirmed :: older →
      .disconnected ∉ older ∧ reply.id ∉ answeredIds older) ∧
    (answeredIds s.log).Nodup ∧
    (∀ newer older id seq, s.log = newer ++ .started id seq :: older →
      ∀ k ∈ startedIds older, k ∈ returnedIds older) ∧
    startsAfterClose s.log ≤ 1 := by
  have htracks := tracks_of_reachable h
  have hlog := htracks.justified
  -- each note has the reason it was made for in the notes before it
  refine ⟨fun seq hseq => handled_of_settled htracks hseq, ?_, ?_, ?_, nodup_answeredIds hlog, ?_,
    startsAfterClose_le_one hlog⟩
  · intro newer older id seq confirmed heq
    rw [heq] at hlog
    exact hlog.of_split.2.2
  · intro newer older id seq confirmed heq
    rw [heq] at hlog
    exact hlog.of_split.2.2
  · intro newer older reply confirmed heq
    rw [heq] at hlog
    exact ⟨hlog.of_split.1, hlog.of_split.2.1⟩
  · intro newer older id seq heq
    rw [heq] at hlog
    exact hlog.of_split.2.2

/-- One message, which the handler acknowledges with a request that gets no response; the callback
    acknowledges it again, and the subscription is closed before the next handler starts. -/
theorem consumer_acks_only_handled_of_two :
    ∃ s, consumer.Reachable s ∧ 0 ∈ s.settled ∧ startedIds s.log = [1, 0] ∧
      startsAfterClose s.log = 1 ∧ answeredIds s.log = [0] ∧ (answeredIds s.log).Nodup := by
  have hrun : (consumer.run initial
      [.publish, .publish, .deliver 0, .deliver 1, .take, .start, .respond .ack .unconfirmed,
        .handled none, .reply true, .receive ⟨0, 0, .ack, .callback⟩, .take, .shutdown .call,
        .shutdown (.enter 0), .shutdown (.body (.drain none)), .shutdown (.body .disconnect),
        .shutdown (.body .close), .start]).map
        (fun s => (s.settled, startedIds s.log, startsAfterClose s.log, answeredIds s.log)) =
      some ([0], [1, 0], 1, [0]) := by
    rfl
  obtain ⟨s, hs, hfacts⟩ := Option.map_eq_some_iff.mp hrun
  obtain ⟨hsettled, hstarted, hlate, hanswered⟩ := by simpa only [Prod.mk.injEq] using hfacts
  have hreach : consumer.Reachable s := .run (.init rfl) hs
  exact ⟨s, hreach, hsettled ▸ List.mem_singleton_self _, hstarted, hlate, hanswered,
    (consumer_acks_only_handled hreach).2.2.2.2.1⟩

/-! ## Shutdown -/

theorem once_of_reachable (h : consumer.Reachable s) :
    (Once.system cleanFn).Reachable s.once := by
  refine System.ReachableBy.simulate Sys.once ?_ ?_ h
  · rintro s rfl
    rfl
  · intro s e s' _ _ hstep
    cases Step.of_step hstep with
    | shutdown honce => exact .inr (.inl ⟨_, trivial, honce⟩)
    | _ => exact .inl rfl

theorem Step.shared_of_done (hstep : Step s e s')
    (hdone : s.once.stage = .done) :
    s'.once.stage = .done ∧ s'.once.shared = s.once.shared := by
  cases hstep with
  | shutdown honce => exact (Once.Step.of_step honce).shared_of_done hdone
  | _ => exact ⟨hdone, rfl⟩

theorem shared_of_run {t : Sys} {es : List Event} (hdone : s.once.stage = .done)
    (hrun : consumer.run s es = some t) : t.once.shared = s.once.shared := by
  induction es generalizing s with
  | nil =>
    cases hrun
    rfl
  | cons e es ih =>
    obtain ⟨s', hs', ht⟩ := consumer.run_cons_eq_some.mp hrun
    obtain ⟨hdone', hshared⟩ := (Step.of_step hs').shared_of_done hdone
    exact (ih hdone' ht).trans hshared

theorem count_le_one {note : Note} (h : Justified Reason log)
    (honce : ∀ older, Reason note older → note ∉ older) : log.count note ≤ 1 := by
  induction log with
  | nil => exact Nat.zero_le _
  | cons head log ih =>
    by_cases heq : head = note
    · subst heq
      rw [List.count_cons_self, List.count_eq_zero_of_not_mem (honce log h.1)]
    · rw [List.count_cons_of_ne heq]
      exact ih h.2

theorem Cleanup.Tracks.length_drains_le (h : c.Tracks log) : (drains log).length ≤ 1 := by
  rcases h.cleanup with ⟨hnone, -⟩ | hone
  · rw [hnone]
    exact Nat.zero_le _
  · rw [hone]
    exact Nat.le_refl _

theorem cleanFn_ends (c : Cleanup) :
    ∃ calls c', cleanFn.run c calls = some c' ∧ cleanFn.finished c' = true := by
  obtain ⟨drained, disconnected, closed, cleanup⟩ := c
  cases closed with
  | true => exact ⟨[], _, rfl, rfl⟩
  | false =>
    cases disconnected with
    | true => exact ⟨[.close], _, rfl, rfl⟩
    | false =>
      cases drained with
      | true => exact ⟨[.disconnect, .close], _, rfl, rfl⟩
      | false => exact ⟨[.drain none, .disconnect, .close], _, rfl, rfl⟩

theorem run_shutdown {es : List (Once.Event CleanupCall)} {once : Once.State Cleanup}
    (h : (Once.system cleanFn).run s.once es = some once) :
    ∃ t, consumer.run s (es.map .shutdown) = some t ∧ t.once = once := by
  induction es generalizing s with
  | nil =>
    cases h
    exact ⟨s, rfl, rfl⟩
  | cons e es ih =>
    obtain ⟨next, hnext, hrest⟩ := (Once.system cleanFn).run_cons_eq_some.mp h
    obtain ⟨t, ht, honce⟩ := ih (s := { s with once := next, log := cleanupNotes e ++ s.log }) hrest
    refine ⟨t, consumer.run_cons_eq_some.mpr ⟨_, ?_, ht⟩, honce⟩
    change (Once.step cleanFn s.once e).map _ = _
    rw [show Once.step cleanFn s.once e = some next from hnext, Option.map_some]

/-- **Shutdown happens once.** However many goroutines call the shutdown function, and whenever the
    context ends: `Drain` is called at most once, the connection is closed at most once and only
    after it; a call that has returned found both done, and returns the error of that `Drain`,
    which no later step changes; and a call that waits can be brought to its return, by steps of
    the shutdown calls alone. -/
theorem shutdown_once {s : Sys} (h : consumer.Reachable s) :
    (drains s.log).length ≤ 1 ∧ s.log.count .disconnected ≤ 1 ∧ s.log.count .closed ≤ 1 ∧
    (∀ newer older, s.log = newer ++ .disconnected :: older → drains older ≠ []) ∧
    (.returned ∈ s.once.callers → .closed ∈ s.log ∧ drains s.log = [s.once.shared.cleanup] ∧
      ∀ es t, consumer.run s es = some t → t.once.shared.cleanup = s.once.shared.cleanup) ∧
    (∀ i : Nat, s.once.callers[i]? = some Once.Caller.waiting →
      ∃ (es : List (Once.Event CleanupCall)) (t : Sys),
        consumer.run s (es.map .shutdown) = some t ∧
          t.once.callers[i]? = some Once.Caller.returned) := by
  have htracks := tracks_of_reachable h
  have hguarded := Once.guarded_of_reachable (once_of_reachable h)
  have hdrained : ∀ newer older, s.log = newer ++ .disconnected :: older → drains older ≠ [] := by
    intro newer older heq
    have hlog := htracks.justified
    rw [heq] at hlog
    exact hlog.of_split.2
  refine ⟨htracks.cleanup.length_drains_le, count_le_one htracks.justified fun _ hr => hr.1,
    count_le_one htracks.justified fun _ hr => hr.1, hdrained, ?_, ?_⟩
  · intro hreturned
    have hdone := hguarded.done_of_returned hreturned
    have hclosed : .closed ∈ s.log := htracks.cleanup.closed.mp (hguarded.done hdone).1
    have hdrains : drains s.log ≠ [] := by
      -- the subscription was closed after the connection, and that after `Drain`
      obtain ⟨newer, older, heq⟩ := List.append_of_mem hclosed
      have hlog := htracks.justified
      rw [heq] at hlog
      obtain ⟨newer', older', hold⟩ := List.append_of_mem hlog.of_split.2
      have hne := hdrained (newer ++ .closed :: newer') older' (by rw [heq, hold]; simp)
      rw [heq, hold]
      intro hnil
      simp only [drains, List.filterMap_append, List.append_eq_nil_iff, List.filterMap_cons] at hnil
      exact hne hnil.2.2
    refine ⟨hclosed, ?_, fun es t hrun => by rw [shared_of_run hdone hrun]⟩
    rcases htracks.cleanup.cleanup with ⟨hnone, -⟩ | hone
    · exact absurd hnone hdrains
    · exact hone
  · intro i hi
    obtain ⟨es, once, hrun, hreturned⟩ := hguarded.can_return cleanFn_ends hi
    obtain ⟨t, ht, rfl⟩ := run_shutdown hrun
    exact ⟨es, t, ht, hreturned⟩

/-- Two calls of the shutdown function while `Drain` fails. -/
theorem shutdown_once_of_two :
    ∃ s, consumer.Reachable s ∧ s.once.callers = [.returned, .returned] ∧
      drains s.log = [some "drain"] ∧ s.once.shared.cleanup = some "drain" ∧
      (drains s.log).length ≤ 1 := by
  have hrun : consumer.run initial
      [.shutdown .call, .shutdown .call, .shutdown (.enter 1),
        .shutdown (.body (.drain (some "drain"))), .shutdown (.body .disconnect),
        .shutdown (.body .close), .shutdown (.leave 1), .shutdown (.enter 0)] =
      some { initial with
        once := ⟨.done, ⟨true, true, true, some "drain"⟩, [.returned, .returned]⟩
        log := [.closed, .disconnected, .drained (some "drain")] } := by
    rfl
  have hreach := System.Reachable.run (.init rfl) hrun
  exact ⟨_, hreach, rfl, rfl, rfl, (shutdown_once hreach).1⟩

end ServiceRuntime.NatsBus.Consumer
