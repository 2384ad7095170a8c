import ServiceRuntime.NatsBus.ReliableSteps

/-!
# The Gauge of Dead Letters

`natsbus_dead_letter_size` is set to the counter by every call that saves a dead letter and by the
replay for every letter it removes. Reading the counter and setting the gauge are two steps, and no
lock spans them. So a slow call can set the gauge to a number that has long changed, and when it is
the last one to do so, the gauge stays wrong until the next dead letter.

The publisher is a ledger: the replay and the calls are its actors, the dead letters its items. The
gauge is right whenever nothing is in progress, if each reading of the counter was still current
when the gauge was set (`gauge_eq_of_current`); `slow_call_leaves_stale_gauge` is a run in which one
was not.
-/

namespace ServiceRuntime.NatsBus

open GoStrings GoTime Resilience Storage Transition

/-! ## The publisher as a ledger -/

/-- The ledger of dead letters; the replay is its first actor. -/
def Sys.ledger (s : Sys) : Ledger.State where
  items := Dir.scanCount s.dir
  count := s.count
  gauge := some s.gauge
  actors := s.replay.ledger :: s.calls.map fun c => c.phase.ledger

variable {s : Sys} {layout : Int → String}

theorem actor_of_call {i : Nat} {c : Call} (hc : s.calls[i]? = some c) :
    s.ledger.actors[i + 1]? = some c.phase.ledger := by
  rw [Sys.ledger, List.getElem?_cons_succ, List.getElem?_map, hc, Option.map_some]

/-- The number that is about to be published is the counter as it is now. -/
def GaugeCurrent (s : Sys) : Event → Prop
  | .call i .setGauge => s.calls[i]?.map (fun c => c.phase.ledger) = some (.holding s.count)
  | .replay .setGauge => s.replay.ledger = .holding s.count
  | _ => True

instance (s : Sys) (e : Event) : Decidable (GaugeCurrent s e) := by
  unfold GaugeCurrent
  split
  · infer_instance
  · infer_instance
  · infer_instance

/-! ## What the replay removes -/

def Listed (s : Sys) : Prop :=
  ∀ file ∈ s.dir.rows, file.name ∈ s.replay.names → file.isDeadLetter = true

section

variable {layout : Int → String} {s s' : Sys} {e : Event}

theorem Step.listed (hstep : Step layout s e s') (h : Listed s) : Listed s' := by
  cases hstep with
  | refuse | publish | call | callAcked => exact h
  | saved _ _ _ _ hinsert =>
    obtain ⟨-, hrows⟩ := KeyedTable.insert_eq_some hinsert
    intro file hfile hname
    rcases List.mem_cons.mp (hrows ▸ hfile) with rfl | hfile
    · exact hasSuffix_append _ _
    · exact h file hfile hname
  | replay _ _ _ hnames =>
    intro file hfile hname
    rcases hnames file.name hname with hold | hnew
    · exact h file hfile hold
    · exact Dir.isDeadLetter_of_mem_list hfile hnew
  | replayAcked _ _ _ hnames => exact fun file hfile hname => h file hfile (hnames ▸ hname)
  | removed hreplay =>
    intro file hfile hname
    refine h file (Dir.mem_remove.mp hfile).1 ?_
    rw [hreplay]
    exact List.mem_cons_of_mem _ hname
  | deleteFailed => exact fun file _ hname => (by cases hname)

end

theorem listed_of_reachable {opts : ReliableOptions} (hs : (reliable opts layout).Reachable s) :
    Listed s := by
  refine System.Reachable.invariant (P := Listed) ?_
    (fun s e s' h hstep => (Step.of_step hstep).listed h) hs
  rintro s ⟨dir, -, rfl⟩ file - hname
  cases hname

/-! ## What a step means for the ledger -/

theorem ledger_put (s : Sys) (i : Nat) (c : Call) :
    (s.put i c).ledger =
      { s.ledger with actors := s.ledger.actors.set (i + 1) c.phase.ledger } := by
  simp only [Sys.ledger, Sys.put, List.map_set, List.set_cons_succ]

theorem ledger_note (s : Sys) (entry : Entry) : (s.note entry).ledger = s.ledger := rfl

/-- **Each step of the publisher is a step of the ledger**, or changes nothing there. -/
theorem Step.ledger {s' : Sys} {e : Event} (hstep : Step layout s e s')
    (hcurrent : GaugeCurrent s e) (hlisted : Listed s) :
    s'.ledger = s.ledger ∨ ∃ d, Ledger.Current s.ledger d ∧
      Ledger.ledger.step s.ledger d = some s'.ledger := by
  cases hstep with
  | refuse => exact .inl rfl
  | publish =>
    refine .inr ⟨.enter, trivial, ?_⟩
    simp only [Sys.ledger, List.map_append]
    rfl
  | @call _ i c phase breaker count gauge hc _ _ _ hledger =>
    -- the counter or the gauge, if the call is concerned with them
    rw [ledger_put]
    refine hledger.step (actor_of_call hc) rfl ?_
    rintro rfl
    rw [GaugeCurrent, hc, Option.map_some, Option.some.injEq] at hcurrent
    exact hcurrent
  | @callAcked _ i c phase breaker hc _ _ hledger =>
    left
    rw [ledger_note, ledger_put, hledger]
    exact congrArg (fun actors => { s.ledger with actors }) (set_of_getElem? (actor_of_call hc))
  | @saved _ i c record err dir hc hphase _ _ hinsert =>
    -- one more dead letter, and the call owes it to the counter
    obtain ⟨-, hrows⟩ := KeyedTable.insert_eq_some hinsert
    have hletter : File.isDeadLetter
        ⟨record.fileName layout, false, some record.afterJSON, some i⟩ = true := hasSuffix_append _ _
    have hactor := actor_of_call hc
    rw [hphase] at hactor
    refine .inr ⟨.change (i + 1) 1, trivial, ?_⟩
    rw [Ledger.step_change hactor, ledger_note, ledger_put]
    simp only [Sys.ledger, Dir.scanCount_cons hrows, hletter]
    rfl
  | replay _ _ _ _ _ hledger =>
    refine hledger.step (s := s.ledger) (i := 0) rfl rfl ?_
    rintro rfl
    exact hcurrent
  | replayAcked _ _ _ _ _ hledger =>
    left
    simp only [Sys.ledger, Sys.note, hledger]
  | @removed _ letter rest file hreplay hfind =>
    -- one dead letter less, which the replay owes to the counter
    obtain ⟨hfile, hname⟩ := KeyedTable.find_eq_some_iff.mp hfind
    have hletter : file.isDeadLetter = true := by
      refine hlisted file hfile ?_
      rw [hreplay, hname]
      exact List.mem_cons_self
    have hactor : s.ledger.actors[0]? = some .quiet := by
      rw [Sys.ledger, hreplay]
      rfl
    refine .inr ⟨.change 0 (-1), trivial, ?_⟩
    rw [Ledger.step_change hactor, ← hname]
    simp only [Sys.ledger, Dir.scanCount_remove hfile hletter]
    rfl
  | deleteFailed hreplay =>
    left
    simp only [Sys.ledger, failReplay, Sys.note, hreplay]
    rfl

/-! ## Main theorem -/

theorem ledger_reachable {opts : ReliableOptions}
    (hs : (reliable opts layout).ReachableBy GaugeCurrent s) :
    Ledger.ledger.ReachableBy Ledger.Current s.ledger := by
  refine System.ReachableBy.simulate Sys.ledger ?_ (fun s e s' hs hcurrent hstep => ?_) hs
  · rintro s ⟨dir, -, rfl⟩
    refine ⟨rfl, fun size hsize => ?_, fun a ha => ?_⟩
    · cases hsize
      rfl
    · exact List.mem_singleton.mp ha
  · rcases (Step.of_step hstep).ledger hcurrent (listed_of_reachable hs.reachable) with
      hsame | hmoved
    · exact .inl hsame
    · exact .inr (.inl hmoved)

/-- **The gauge is right at rest**: in every run in which each reading of the counter was still
    current when the gauge was set, the gauge is the number of dead letters whenever no `Publish`
    call and no replay is in progress. -/
theorem gauge_eq_of_current (opts : ReliableOptions) (layout : Int → String) {s : Sys}
    (hs : (reliable opts layout).ReachableBy GaugeCurrent s)
    (hcalls : ∀ c ∈ s.calls, ∃ outcome, c.phase = .returned outcome) (hreplay : s.replay = .idle) :
    s.gauge = (s.dir.rows.filter File.isDeadLetter).length := by
  refine Ledger.gauge_eq_items (ledger_reachable hs) (fun a ha => ?_) s.gauge rfl
  rcases List.mem_cons.mp ha with rfl | ha
  · rw [hreplay]
    rfl
  · obtain ⟨c, hc, rfl⟩ := List.mem_map.mp ha
    obtain ⟨outcome, houtcome⟩ := hcalls c hc
    rw [houtcome]
    rfl

/-- One attempt for each message, and a breaker that opens at the first failure. -/
def oneAttempt : ReliableOptions := ⟨⟨1, none⟩, ⟨1, Duration.second, 1, false⟩, "dlq", 1⟩

/-- A call fails and saves its message; it is about to set the gauge to one. -/
def firstLetter : List Event :=
  [.publish (.ok ⟨bytes "orders", .empty, [1]⟩), .call 0 (.publish (.before 0)),
    .call 0 (.publish (.retry (.answer (some ⟨"no responders", none⟩)))),
    .call 0 (.publish (.after 1)), .call 0 (.record (bytes "a1") 2 2 []), .call 0 (.save none),
    .call 0 (.save none), .call 0 (.save none), .call 0 (.save none), .call 0 (.save none),
    .call 0 .addCount, .call 0 .readCount]

/-- Another call is turned away by the breaker, and saves its message. -/
def secondLetter : List Event :=
  [.publish (.ok ⟨bytes "orders", .empty, [2]⟩), .call 1 (.publish (.before 3)),
    .call 1 (.record (bytes "b1") 4 4 []), .call 1 (.save none), .call 1 (.save none),
    .call 1 (.save none), .call 1 (.save none), .call 1 (.save none), .call 1 .addCount,
    .call 1 .readCount, .call 1 .setGauge]

def Sys.atRest (s : Sys) : Bool :=
  s.replay == .idle && s.calls.all fun c =>
    match c.phase with
    | .returned _ => true
    | _ => false

theorem Sys.atRest_iff : s.atRest = true ↔
    s.replay = .idle ∧ ∀ c ∈ s.calls, ∃ outcome, c.phase = .returned outcome := by
  rw [atRest, Bool.and_eq_true, beq_iff_eq, List.all_eq_true]
  refine and_congr_right fun _ => forall₂_congr fun c _ => ?_
  split
  · rename_i outcome hphase
    exact ⟨fun _ => ⟨outcome, hphase⟩, fun _ => rfl⟩
  · rename_i hphase
    exact ⟨fun h => (by cases h), fun ⟨outcome, houtcome⟩ => absurd houtcome (hphase outcome)⟩

/-- One call after the other, and the gauge is two. -/
theorem gauge_eq_of_orderly_calls :
    ∃ s : Sys, (reliable oneAttempt (fun _ => "t")).ReachableBy GaugeCurrent s ∧
      s.atRest = true ∧ s.gauge = 2 ∧
      s.gauge = (s.dir.rows.filter File.isDeadLetter).length := by
  have hrun : ((reliable oneAttempt (fun _ => "t")).runBy GaugeCurrent (initial KeyedTable.empty)
      (firstLetter ++ [.call 0 .setGauge] ++ secondLetter)).map (fun s => (s.atRest, s.gauge)) =
      some (true, 2) := by
    decide +kernel
  obtain ⟨s, hs, hfacts⟩ := Option.map_eq_some_iff.mp hrun
  rw [Prod.mk.injEq] at hfacts
  have hreach : (reliable oneAttempt (fun _ => "t")).ReachableBy GaugeCurrent s :=
    System.ReachableBy.runBy (.init ⟨KeyedTable.empty, fun _ hfile => (by cases hfile), rfl⟩) hs
  obtain ⟨hreplay, hcalls⟩ := Sys.atRest_iff.mp hfacts.1
  exact ⟨s, hreach, hfacts.1, hfacts.2, gauge_eq_of_current _ _ hreach hcalls hreplay⟩

/-- **A slow call leaves the gauge stale**: the first call has read the counter, the second one adds
    its letter and sets the gauge to two, and then the first one sets it to one. Both calls have
    returned, there are two dead letters, and the gauge says one. -/
theorem slow_call_leaves_stale_gauge :
    ∃ s : Sys, (reliable oneAttempt (fun _ => "t")).Reachable s ∧ s.replay = .idle ∧
      (∀ c ∈ s.calls, ∃ outcome, c.phase = .returned outcome) ∧
      s.gauge = 1 ∧ (s.dir.rows.filter File.isDeadLetter).length = 2 := by
  have hrun : ((reliable oneAttempt (fun _ => "t")).run (initial KeyedTable.empty)
      (firstLetter ++ secondLetter ++ [.call 0 .setGauge])).map
      (fun s => (s.atRest, s.gauge, (s.dir.rows.filter File.isDeadLetter).length)) =
      some (true, 1, 2) := by
    decide +kernel
  obtain ⟨s, hs, hfacts⟩ := Option.map_eq_some_iff.mp hrun
  rw [Prod.mk.injEq, Prod.mk.injEq] at hfacts
  have hreach : (reliable oneAttempt (fun _ => "t")).Reachable s :=
    System.Reachable.run (.init ⟨KeyedTable.empty, fun _ hfile => (by cases hfile), rfl⟩) hs
  obtain ⟨hreplay, hcalls⟩ := Sys.atRest_iff.mp hfacts.1
  exact ⟨s, hreach, hreplay, hcalls, hfacts.2⟩

end ServiceRuntime.NatsBus
