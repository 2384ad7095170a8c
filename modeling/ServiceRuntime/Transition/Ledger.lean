import ServiceRuntime.Transition.System

/-!
# Counting a Shared Collection

Any number of actors add to and take from a collection. Beside the collection there is a counter,
and a gauge that shows the counter to others. An actor that has changed the collection goes through
three more steps, in each of which others may interfere:

    change the collection → add to the counter → read the counter → set the gauge

The counter is right up to what the actors still owe it (`count_add_owed`). The gauge has no such
invariant: an actor may hold an old reading for a while and then publish it. It is right when
everyone has finished, provided that each reading was still current when it was published
(`gauge_eq_items`).
-/

namespace ServiceRuntime.Transition.Ledger

/-! ## The system -/

inductive Stage where
  | quiet
  /-- The collection has changed by `delta`, the counter not yet. -/
  | owing (delta : Int)
  | added
  /-- The counter has been read, as `size`. -/
  | holding (size : Int)
  deriving DecidableEq

namespace Stage

def owed : Stage → Int
  | owing delta => delta
  | _ => 0

/-- The actor has changed the counter, and has not published it yet. -/
def Unpublished : Stage → Prop
  | added | holding _ => True
  | quiet | owing _ => False

end Stage

structure State where
  /-- The size of the collection. -/
  items : Int
  count : Int
  /-- What was published last, if anything. -/
  gauge : Option Int
  actors : List Stage

inductive Event where
  | enter
  | change (i : Nat) (delta : Int)
  | add (i : Nat)
  | read (i : Nat)
  | publish (i : Nat)
  deriving DecidableEq

def step (s : State) : Event → Option State
  | .enter => some { s with actors := s.actors ++ [.quiet] }
  | .change i delta =>
    match s.actors[i]? with
    | some .quiet =>
      some { s with items := s.items + delta, actors := s.actors.set i (.owing delta) }
    | _ => none
  | .add i =>
    match s.actors[i]? with
    | some (.owing delta) =>
      some { s with count := s.count + delta, actors := s.actors.set i .added }
    | _ => none
  | .read i =>
    match s.actors[i]? with
    | some .added => some { s with actors := s.actors.set i (.holding s.count) }
    | _ => none
  | .publish i =>
    match s.actors[i]? with
    | some (.holding size) => some { s with gauge := some size, actors := s.actors.set i .quiet }
    | _ => none

/-- The counter and the gauge start out right, and nobody is at work yet. -/
structure Fresh (s : State) : Prop where
  count : s.count = s.items
  gauge : ∀ size ∈ s.gauge, size = s.count
  actors : ∀ a ∈ s.actors, a = .quiet

/-- The actors, in any interleaving. -/
def ledger : System State Event where
  init := Fresh
  step := step

section

variable {s : State} {i : Nat}

theorem step_change (h : s.actors[i]? = some .quiet) (delta : Int) :
    ledger.step s (.change i delta) =
      some { s with items := s.items + delta, actors := s.actors.set i (.owing delta) } := by
  simp only [ledger, step, h]

theorem step_add {delta : Int} (h : s.actors[i]? = some (.owing delta)) :
    ledger.step s (.add i) =
      some { s with count := s.count + delta, actors := s.actors.set i .added } := by
  simp only [ledger, step, h]

theorem step_read (h : s.actors[i]? = some .added) :
    ledger.step s (.read i) = some { s with actors := s.actors.set i (.holding s.count) } := by
  simp only [ledger, step, h]

theorem step_publish {size : Int} (h : s.actors[i]? = some (.holding size)) :
    ledger.step s (.publish i) =
      some { s with gauge := some size, actors := s.actors.set i .quiet } := by
  simp only [ledger, step, h]

end

def Current (s : State) : Event → Prop
  | .publish i => s.actors[i]? = some (.holding s.count)
  | _ => True

/-! ## One actor -/

/-- What an actor does with the counter and a gauge in one step; only one that `shows` sets the
    gauge. -/
inductive Act (shows : Prop) (count gauge : Int) : Stage → Int → Int → Stage → Prop where
  | still {a : Stage} : Act shows count gauge a count gauge a
  | add {delta : Int} : Act shows count gauge (.owing delta) (count + delta) gauge .added
  | read : Act shows count gauge .added count gauge (.holding count)
  | publish {size : Int} (h : shows) : Act shows count gauge (.holding size) count size .quiet

variable {s s' : State} {actors : List Stage}

theorem Act.step {shows : Prop} {i : Nat} {a b : Stage} {gauge count' gauge' : Int}
    (h : Act shows s.count gauge a count' gauge' b) (hactor : s.actors[i]? = some a)
    (hgauge : s.gauge = some gauge) (hcurrent : shows → a = .holding s.count) :
    { s with count := count', gauge := some gauge', actors := s.actors.set i b } = s ∨
      ∃ d, Current s d ∧ ledger.step s d =
        some { s with count := count', gauge := some gauge', actors := s.actors.set i b } := by
  cases h with
  | still => exact .inl (by rw [set_of_getElem? hactor, ← hgauge])
  | add => exact .inr ⟨.add i, trivial, by rw [step_add hactor, hgauge]⟩
  | read => exact .inr ⟨.read i, trivial, by rw [step_read hactor, hgauge]⟩
  | publish hshows =>
    refine .inr ⟨.publish i, ?_, step_publish hactor⟩
    rw [Current, hactor, hcurrent hshows]

/-! ## The shapes of a step -/

inductive Step (s : State) : Event → State → Prop where
  | enter : Step s .enter { s with actors := s.actors ++ [.quiet] }
  | change {i : Nat} {delta : Int} (h : s.actors[i]? = some .quiet) :
      Step s (.change i delta)
        { s with items := s.items + delta, actors := s.actors.set i (.owing delta) }
  | add {i : Nat} {delta : Int} (h : s.actors[i]? = some (.owing delta)) :
      Step s (.add i) { s with count := s.count + delta, actors := s.actors.set i .added }
  | read {i : Nat} (h : s.actors[i]? = some .added) :
      Step s (.read i) { s with actors := s.actors.set i (.holding s.count) }
  | publish {i : Nat} {size : Int} (h : s.actors[i]? = some (.holding size)) :
      Step s (.publish i) { s with gauge := some size, actors := s.actors.set i .quiet }

theorem Step.of_step {e : Event} (h : step s e = some s') : Step s e s' := by
  unfold step at h
  split at h
  case h_1 =>
    cases h
    exact .enter
  -- an actor is where the event needs it to be, or there is no step
  case h_2 | h_3 | h_4 | h_5 =>
    split at h
    · rename_i hactor
      cases h
      constructor
      exact hactor
    · cases h

/-! ## The counter -/

def totalOwed (actors : List Stage) : Int := (actors.map Stage.owed).sum

theorem totalOwed_set {i : Nat} {a : Stage} (h : actors[i]? = some a) (b : Stage) :
    totalOwed (actors.set i b) = totalOwed actors - a.owed + b.owed :=
  sum_map_set h Stage.owed b

theorem totalOwed_concat (actors : List Stage) (a : Stage) :
    totalOwed (actors ++ [a]) = totalOwed actors + a.owed := by
  simp [totalOwed]

theorem totalOwed_eq_zero (h : ∀ a ∈ actors, a.owed = 0) : totalOwed actors = 0 := by
  refine List.sum_eq_zero fun x hx => ?_
  obtain ⟨a, ha, rfl⟩ := List.mem_map.mp hx
  exact h a ha

theorem owed_of_quiet (h : ∀ a ∈ actors, a = .quiet) : ∀ a ∈ actors, a.owed = 0 := by
  intro a ha
  rw [h a ha]
  rfl

/-- Together with what is owed, the counter is the size of the collection. -/
def Balanced (s : State) : Prop := s.count + totalOwed s.actors = s.items

theorem Step.balanced {e : Event} (hstep : Step s e s') (h : Balanced s) : Balanced s' := by
  unfold Balanced at h ⊢
  cases hstep with
  | enter =>
    rw [totalOwed_concat]
    simpa [Stage.owed] using h
  | change hactor | add hactor | read hactor | publish hactor =>
    simp only [totalOwed_set hactor, Stage.owed]
    omega

theorem Fresh.balanced (h : Fresh s) : Balanced s := by
  rw [Balanced, totalOwed_eq_zero (owed_of_quiet h.actors), h.count, Int.add_zero]

/-- **The counter is right up to what is owed.** -/
theorem count_add_owed (hs : ledger.Reachable s) : s.count + totalOwed s.actors = s.items :=
  System.Reachable.invariant (P := Balanced) (fun _ hinit => Fresh.balanced hinit)
    (fun _ _ _ h hstep => (Step.of_step hstep).balanced h) hs

theorem count_eq_items (hs : ledger.Reachable s) (h : ∀ a ∈ s.actors, a.owed = 0) :
    s.count = s.items := by
  rw [← count_add_owed hs, totalOwed_eq_zero h, Int.add_zero]

/-! ## The gauge -/

/-- The gauge shows the counter, or someone is about to set it. -/
def Shown (s : State) : Prop :=
  (∀ size ∈ s.gauge, size = s.count) ∨ ∃ (i : Nat) (a : Stage), s.actors[i]? = some a ∧ a.Unpublished

theorem unpublished_set {i : Nat} {a b : Stage} (h : actors[i]? = some a) (ha : ¬ a.Unpublished)
    (hothers : ∃ (k : Nat) (c : Stage), actors[k]? = some c ∧ c.Unpublished) :
    ∃ (k : Nat) (c : Stage), (actors.set i b)[k]? = some c ∧ c.Unpublished := by
  obtain ⟨k, c, hk, hc⟩ := hothers
  have hne : k ≠ i := by
    rintro rfl
    rw [h] at hk
    cases hk
    exact ha hc
  exact ⟨k, c, (getElem?_set_iff h).mpr (.inr ⟨hne, hk⟩), hc⟩

theorem Step.shown {e : Event} (hstep : Step s e s') (hcurrent : Current s e) (h : Shown s) :
    Shown s' := by
  cases hstep with
  | enter =>
    rcases h with hgauge | ⟨k, c, hk, hc⟩
    · exact .inl hgauge
    · exact .inr ⟨k, c, getElem?_concat_iff.mpr (.inl hk), hc⟩
  | change hactor =>
    rcases h with hgauge | hothers
    · exact .inl hgauge
    · exact .inr (unpublished_set hactor (fun h => h) hothers)
  | @add i delta hactor =>
    exact .inr ⟨i, .added, (getElem?_set_iff hactor).mpr (.inl ⟨rfl, rfl⟩), trivial⟩
  | @read i hactor =>
    exact .inr ⟨i, .holding s.count, (getElem?_set_iff hactor).mpr (.inl ⟨rfl, rfl⟩), trivial⟩
  | @publish i size hactor =>
    -- the reading is the counter as it is now
    left
    rintro _ ⟨⟩
    rw [Current, hactor] at hcurrent
    cases hcurrent
    rfl

/-- **The gauge is right at rest**, if every reading was current when it was published. -/
theorem gauge_eq_items (hs : ledger.ReachableBy Current s) (hquiet : ∀ a ∈ s.actors, a = .quiet) :
    ∀ size ∈ s.gauge, size = s.items := by
  have hshown : Shown s :=
    System.ReachableBy.invariant (P := Shown) (fun _ (hinit : Fresh _) => .inl hinit.gauge)
      (fun _ _ _ _ h hok hstep => (Step.of_step hstep).shown hok h) hs
  have hcount : s.count = s.items := count_eq_items hs.reachable (owed_of_quiet hquiet)
  rcases hshown with hgauge | ⟨i, a, ha, hunpublished⟩
  · exact fun size hsize => (hgauge size hsize).trans hcount
  · rw [hquiet a (List.mem_of_getElem? ha)] at hunpublished
    exact hunpublished.elim

end ServiceRuntime.Transition.Ledger
