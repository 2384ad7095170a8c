import ServiceRuntime.Startup.Lifecycle

/-!
# Every Hook Runs Once

A hook is handed over twice: `Shutdown` takes it from the lifecycle, and the loop takes it from the
call's own list when it runs it. At any time it is in exactly one place (`Once`): still registered,
in the list of one `Shutdown` call, or among the hooks that have run. Nothing is lost and nothing is
run twice, whatever else goes on.

The rest is about one call (`CallOrderly`): it runs its hooks in the reverse order of registration,
and the errors it has collected are those that its hooks returned.
-/

namespace ServiceRuntime.Startup.Lifecycle

open Transition

/-! ## Reading the log -/

/-- The hooks that have run, newest first. -/
def ranIds (log : List Note) : List Nat :=
  log.filterMap fun
    | .ran _ hook => some hook.id
    | .failed _ _ _ => none

/-- The hooks that call `i` has run, newest first. -/
def ranBy (i : Nat) (log : List Note) : List Nat :=
  log.filterMap fun
    | .ran k hook => if k = i then some hook.id else none
    | .failed _ _ _ => none

/-- The errors that hooks returned to call `i`, newest first. -/
def failuresBy (i : Nat) (log : List Note) : List String :=
  log.filterMap fun
    | .ran _ _ => none
    | .failed k hook err => if k = i then some (hook.failure err) else none

def Stage.todo : Stage → List Hook
  | .looping todo _ => todo
  | .inside _ todo _ => todo
  | _ => []

/-- The call has collected these errors, newest first. -/
def Stage.Reports (failures : List String) : Stage → Prop
  | .started => failures = []
  | .looping _ errs => errs = failures.reverse
  | .inside _ _ errs => errs = failures.reverse
  | .returned result => result = joined failures.reverse

def Stage.isReturned : Stage → Bool
  | .returned _ => true
  | _ => false

theorem Stage.eq_returned {stage : Stage} (h : stage.isReturned = true) :
    ∃ result, stage = .returned result := by
  cases stage with
  | returned result => exact ⟨result, rfl⟩
  | _ => cases h

section

variable {i : Nat} {stage stage' : Stage} {notes : List Note}

theorem Turn.others (hturn : Turn i stage stage' notes) {k : Nat} (hne : k ≠ i) (log : List Note) :
    ranBy k (notes ++ log) = ranBy k log ∧ failuresBy k (notes ++ log) = failuresBy k log := by
  cases hturn with
  | enter => exact ⟨List.filterMap_cons_none (if_neg hne.symm), rfl⟩
  | finish | leave => exact ⟨rfl, rfl⟩
  | fail => exact ⟨rfl, List.filterMap_cons_none (if_neg hne.symm)⟩

/-- What is still to run and what has run, in one list: a step moves the border between them. -/
theorem Turn.order (hturn : Turn i stage stage' notes) (log : List Note) :
    (stage'.todo.map Hook.id).reverse ++ ranBy i (notes ++ log) =
      (stage.todo.map Hook.id).reverse ++ ranBy i log := by
  cases hturn with
  | @enter hook todo errs =>
    -- the head of `todo` becomes the head of `ranBy`: in the reversed list it stays in its place
    have hran : ranBy i (.ran i hook :: log) = hook.id :: ranBy i log :=
      List.filterMap_cons_some (if_pos rfl)
    change (todo.map Hook.id).reverse ++ ranBy i (.ran i hook :: log) = _
    rw [hran, Stage.todo, List.map_cons, List.reverse_cons, List.append_assoc]
    rfl
  | finish | leave | fail => rfl

theorem Turn.reports (hturn : Turn i stage stage' notes) {log : List Note}
    (h : stage.Reports (failuresBy i log)) : stage'.Reports (failuresBy i (notes ++ log)) := by
  cases hturn with
  | enter => exact h
  | finish => exact congrArg joined h
  | leave => exact h
  | @fail hook todo errs err =>
    have hfailures : failuresBy i (.failed i hook err :: log) =
        hook.failure err :: failuresBy i log := List.filterMap_cons_some (if_pos rfl)
    change errs ++ [hook.failure err] = (failuresBy i (.failed i hook err :: log)).reverse
    rw [hfailures, List.reverse_cons, show errs = (failuresBy i log).reverse from h]

theorem Turn.count (hturn : Turn i stage stage' notes) (log : List Note) (id : Nat) :
    (ranIds (notes ++ log)).count id + (stage'.todo.map Hook.id).count id =
      (ranIds log).count id + (stage.todo.map Hook.id).count id := by
  cases hturn with
  | @enter hook todo errs =>
    change (hook.id :: ranIds log).count id + (todo.map Hook.id).count id =
      (ranIds log).count id + ((hook :: todo).map Hook.id).count id
    rw [List.map_cons, List.count_cons, List.count_cons]
    omega
  | finish | leave | fail => rfl

theorem Turn.ne_started (hturn : Turn i stage stage' notes) :
    stage ≠ .started ∧ stage' ≠ .started := by
  cases hturn with
  | _ => exact ⟨fun h => (by cases h), fun h => (by cases h)⟩

end

/-! ## One place for each hook -/

def copies (s : Sys) (id : Nat) : Int :=
  (ranIds s.log).count id + (s.hooks.map Hook.id).count id +
    (s.calls.map fun c => ((c.stage.todo.map Hook.id).count id : Int)).sum

def Once (s : Sys) : Prop := ∀ id, copies s id = if id < s.next then 1 else 0

variable {s s' : Sys}

theorem Step.once {e : Event} (hstep : Step s e s') (h : Once s) : Once s' := by
  intro id
  have hold := h id
  unfold copies at hold ⊢
  cases hstep with
  | ignore => exact hold
  | register =>
    -- the new hook has the number `s.next`, which was in no place
    simp only [Sys.register, List.map_append, List.map_cons, List.map_nil, List.count_append,
      List.count_singleton, beq_iff_eq]
    split_ifs at hold ⊢ with hlt heq <;> omega
  | shutdown =>
    -- a call that is still before the lock holds no hook
    have hnew : (List.map (fun c : Call => ((c.stage.todo.map Hook.id).count id : Int))
        [⟨s.next, .started⟩]).sum = 0 := rfl
    simp only [Sys.beginShutdown, List.map_append, List.sum_append, hnew, Int.add_zero]
    exact hold
  | take hc hstage =>
    -- the registered hooks become those of the call
    have hbefore : Stage.started.todo = [] := rfl
    have hafter : (Stage.looping s.hooks.reverse []).todo = s.hooks.reverse := rfl
    simp only [Sys.move, List.nil_append, sum_map_set hc, hstage, hbefore, hafter, List.map_nil,
      List.count_nil, List.map_reverse, List.count_reverse]
    omega
  | turn hc hturn =>
    have hcount := hturn.count s.log id
    simp only [Sys.move, sum_map_set hc]
    omega

theorem once_of_reachable (hs : lifecycle.Reachable s) : Once s := by
  refine System.Reachable.invariant (P := Once) ?_
    (fun _ _ _ h hstep => (Step.of_step hstep).once h) hs
  rintro s rfl id
  rfl

theorem count_ranIds_le (s : Sys) (id : Nat) : ((ranIds s.log).count id : Int) ≤ copies s id := by
  have hsum : 0 ≤ (s.calls.map fun c => ((c.stage.todo.map Hook.id).count id : Int)).sum := by
    refine List.sum_nonneg fun x hx => ?_
    obtain ⟨c, -, rfl⟩ := List.mem_map.mp hx
    exact Int.natCast_nonneg _
  unfold copies
  omega

/-- **No hook runs twice.** -/
theorem nodup_ranIds (hs : lifecycle.Reachable s) : (ranIds s.log).Nodup := by
  rw [List.nodup_iff_count_le_one]
  intro id
  have hle := count_ranIds_le s id
  rw [once_of_reachable hs id] at hle
  split at hle <;> omega

/-- **At rest no hook is lost**: when no `Shutdown` is in progress, a hook that has been registered
    has run once, or is still registered. -/
theorem count_at_rest (hs : lifecycle.Reachable s)
    (hrest : ∀ c ∈ s.calls, c.stage.isReturned = true) {id : Nat} (hid : id < s.next) :
    (ranIds s.log).count id + (s.hooks.map Hook.id).count id = 1 := by
  -- a call that has returned has nothing left to run
  have hsum : (s.calls.map fun c => ((c.stage.todo.map Hook.id).count id : Int)).sum = 0 := by
    refine List.sum_eq_zero fun x hx => ?_
    obtain ⟨c, hc, rfl⟩ := List.mem_map.mp hx
    obtain ⟨result, hstage⟩ := Stage.eq_returned (hrest c hc)
    rw [hstage]
    rfl
  have honce := once_of_reachable hs id
  rw [if_pos hid, copies, hsum] at honce
  omega

/-! ## Order -/

/-- What holds of `Shutdown` call `i`. -/
structure CallOrderly (s : Sys) (i : Nat) (c : Call) : Prop where
  /-- What is still to run was registered before what has run. -/
  order : ((c.stage.todo.map Hook.id).reverse ++ ranBy i s.log).Pairwise (· < ·)
  reports : c.stage.Reports (failuresBy i s.log)
  fresh : c.stage = .started → ranBy i s.log = []
  /-- The hooks that the call found are no longer registered. -/
  taken : c.stage ≠ .started → ∀ hook ∈ s.hooks, c.before ≤ hook.id

structure Orderly (s : Sys) : Prop where
  sorted : (s.hooks.map Hook.id).Pairwise (· < ·)
  numbered : ∀ hook ∈ s.hooks, hook.id < s.next
  before : ∀ c ∈ s.calls, c.before ≤ s.next
  calls : ∀ {i : Nat} {c : Call}, s.calls[i]? = some c → CallOrderly s i c
  later : ∀ {i : Nat}, s.calls.length ≤ i → ranBy i s.log = [] ∧ failuresBy i s.log = []

theorem Orderly.register (h : Orderly s) (name : String) : Orderly (s.register name) := by
  constructor
  · simp only [Sys.register, List.map_append, List.map_cons, List.map_nil]
    refine List.pairwise_append.mpr ⟨h.sorted, List.pairwise_singleton _ _, ?_⟩
    intro id hid last hlast
    obtain ⟨hook, hhook, rfl⟩ := List.mem_map.mp hid
    rw [List.mem_singleton.mp hlast]
    exact h.numbered hook hhook
  · intro hook hhook
    rcases List.mem_append.mp hhook with hhook | hhook
    · exact Nat.lt_succ_of_lt (h.numbered hook hhook)
    · rw [List.mem_singleton.mp hhook]
      exact Nat.lt_succ_self _
  · exact fun c hc => Nat.le_succ_of_le (h.before c hc)
  · intro i c hc
    obtain ⟨horder, hreports, hfresh, htaken⟩ := h.calls hc
    refine ⟨horder, hreports, hfresh, fun hne hook hhook => ?_⟩
    rcases List.mem_append.mp hhook with hhook | hhook
    -- a hook that was there before
    · exact htaken hne hook hhook
    -- the new one has a number that no call has seen
    · rw [List.mem_singleton.mp hhook]
      exact h.before c (List.mem_of_getElem? hc)
  · exact h.later

theorem Orderly.take (h : Orderly s) {i : Nat} {c : Call} (hc : s.calls[i]? = some c)
    (hstage : c.stage = .started) :
    Orderly ({ s with hooks := [] }.move i c (.looping s.hooks.reverse []) []) := by
  have hcall := h.calls hc
  constructor
  · exact List.Pairwise.nil
  · exact fun hook hhook => (by cases hhook)
  · intro d hd
    rcases List.mem_or_eq_of_mem_set hd with hd | rfl
    · exact h.before d hd
    · exact h.before c (List.mem_of_getElem? hc)
  · intro k d hk
    rcases (getElem?_set_iff hc).mp hk with ⟨rfl, rfl⟩ | ⟨-, hk⟩
    · refine ⟨?_, ?_, fun h => (by cases h), fun _ hook hhook => (by cases hhook)⟩
      -- nothing has run yet, and the list is the one that was registered
      · simp only [Sys.move, List.nil_append, Stage.todo, hcall.fresh hstage, List.append_nil,
          List.map_reverse, List.reverse_reverse]
        exact h.sorted
      · have hreports := hcall.reports
        rw [hstage] at hreports
        change ([] : List String) = (failuresBy k s.log).reverse
        rw [show failuresBy k s.log = [] from hreports, List.reverse_nil]
    -- another call: no hook is registered any more, and its own list stays
    · obtain ⟨horder, hreports, hfresh, -⟩ := h.calls hk
      exact ⟨horder, hreports, hfresh, fun _ hook hhook => (by cases hhook)⟩
  · intro k hk
    rw [Sys.move, List.length_set] at hk
    exact h.later hk

theorem Orderly.turn (h : Orderly s) {i : Nat} {c : Call} {stage : Stage} {notes : List Note}
    (hc : s.calls[i]? = some c) (hturn : Turn i c.stage stage notes) :
    Orderly (s.move i c stage notes) := by
  obtain ⟨horder, hreports, -, htaken⟩ := h.calls hc
  obtain ⟨hne, hne'⟩ := hturn.ne_started
  refine ⟨h.sorted, h.numbered, ?_, ?_, ?_⟩
  · intro d hd
    rcases List.mem_or_eq_of_mem_set hd with hd | rfl
    · exact h.before d hd
    · exact h.before c (List.mem_of_getElem? hc)
  · intro k d hk
    rcases (getElem?_set_iff hc).mp hk with ⟨rfl, rfl⟩ | ⟨hother, hk⟩
    · refine ⟨?_, hturn.reports hreports, fun h => absurd h hne', fun _ => htaken hne⟩
      change ((stage.todo.map Hook.id).reverse ++ ranBy k (notes ++ s.log)).Pairwise (· < ·)
      -- the border between to run and has run moves, the list is the same
      rw [hturn.order]
      exact horder
    -- another call: nothing was noted in its name
    · obtain ⟨hran, hfailures⟩ := hturn.others hother s.log
      obtain ⟨horder', hreports', hfresh', htaken'⟩ := h.calls hk
      refine ⟨?_, ?_, ?_, htaken'⟩
      · change ((d.stage.todo.map Hook.id).reverse ++ ranBy k (notes ++ s.log)).Pairwise (· < ·)
        rw [hran]
        exact horder'
      · change d.stage.Reports (failuresBy k (notes ++ s.log))
        rw [hfailures]
        exact hreports'
      · intro hstarted
        change ranBy k (notes ++ s.log) = []
        rw [hran]
        exact hfresh' hstarted
  · intro k hk
    have hk : s.calls.length ≤ k := by rwa [Sys.move, List.length_set] at hk
    -- a number that no call has yet
    have hother : k ≠ i := by
      obtain ⟨hlt, -⟩ := List.getElem?_eq_some_iff.mp hc
      omega
    obtain ⟨hran, hfailures⟩ := hturn.others hother s.log
    change ranBy k (notes ++ s.log) = [] ∧ failuresBy k (notes ++ s.log) = []
    rw [hran, hfailures]
    exact h.later hk

theorem Step.orderly {e : Event} (hstep : Step s e s') (h : Orderly s) : Orderly s' := by
  cases hstep with
  | ignore => exact h
  | register => exact h.register _
  | shutdown =>
    refine ⟨h.sorted, h.numbered, ?_, ?_, ?_⟩
    · intro c hc
      rcases List.mem_append.mp hc with hc | hc
      · exact h.before c hc
      · rw [List.mem_singleton.mp hc]
        exact le_refl s.next
    · intro i c hc
      rcases getElem?_concat_iff.mp hc with hc | ⟨rfl, rfl⟩
      · obtain ⟨horder, hreports, hfresh, htaken⟩ := h.calls hc
        exact ⟨horder, hreports, hfresh, htaken⟩
      -- the new call, in whose name nothing has been noted
      · obtain ⟨hran, hfailures⟩ := h.later (le_refl s.calls.length)
        refine ⟨?_, hfailures, fun _ => hran, fun hne => absurd rfl hne⟩
        change (ranBy s.calls.length s.log).Pairwise (· < ·)
        rw [hran]
        exact List.Pairwise.nil
    · intro i hi
      rw [Sys.beginShutdown, List.length_append] at hi
      exact h.later (by omega)
  | take hc hstage => exact h.take hc hstage
  | turn hc hturn => exact h.turn hc hturn

theorem ranIds_eq_nil (h : Orderly s) (hcalls : s.calls = []) : ranIds s.log = [] := by
  rw [List.eq_nil_iff_forall_not_mem]
  intro id hid
  obtain ⟨note, hnote, hsome⟩ := List.mem_filterMap.mp hid
  cases note with
  | ran k hook =>
    -- whoever ran the hook would have been a call
    have hran : id ∈ ranBy k s.log :=
      List.mem_filterMap.mpr ⟨_, hnote, (if_pos rfl).trans hsome⟩
    rw [(h.later (by rw [hcalls]; exact Nat.zero_le k)).1] at hran
    cases hran
  | failed k hook err => cases hsome

theorem orderly_of_reachable (hs : lifecycle.Reachable s) : Orderly s := by
  refine System.Reachable.invariant (P := Orderly) ?_
    (fun _ _ _ h hstep => (Step.of_step hstep).orderly h) hs
  rintro s rfl
  exact ⟨List.Pairwise.nil, fun hook hhook => (by cases hhook), fun c hc => (by cases hc),
    fun hc => (by cases hc), fun _ => ⟨rfl, rfl⟩⟩

/-- **What a `Shutdown` found has run**: when none is in progress, every hook that was registered
    before some `Shutdown` started has run. -/
theorem count_eq_one_of_before (hs : lifecycle.Reachable s)
    (hrest : ∀ c ∈ s.calls, c.stage.isReturned = true) {c : Call} (hc : c ∈ s.calls) {id : Nat}
    (hid : id < c.before) : (ranIds s.log).count id = 1 := by
  have horderly := orderly_of_reachable hs
  -- what the call found is no longer registered; at rest it can only have run
  have hgone : (s.hooks.map Hook.id).count id = 0 := by
    rw [List.count_eq_zero]
    intro hmem
    obtain ⟨hook, hhook, rfl⟩ := List.mem_map.mp hmem
    obtain ⟨i, hi⟩ := List.mem_iff_getElem?.mp hc
    have hne : c.stage ≠ .started := by
      intro hstarted
      have hreturned := hrest c hc
      rw [hstarted] at hreturned
      cases hreturned
    have hle := (horderly.calls hi).taken hne hook hhook
    omega
  have hone := count_at_rest hs hrest (Nat.lt_of_lt_of_le hid (horderly.before c hc))
  omega

/-! ## Main theorem -/

/-- **Hooks run exactly once.** In every reachable state no hook has run twice. If no `Shutdown` is
    in progress, a hook that was registered before some `Shutdown` started has run once, and any
    other hook that has not run is still registered. Each `Shutdown` has run its hooks in the
    reverse order of registration, and what it returned contains every error of its hooks. -/
theorem hooks_run_once {s : Sys} (hs : lifecycle.Reachable s) :
    (ranIds s.log).Nodup ∧
      ((∀ c ∈ s.calls, c.stage.isReturned = true) → ∀ id < s.next,
        ((∃ c ∈ s.calls, id < c.before) → (ranIds s.log).count id = 1) ∧
          (id ∉ ranIds s.log → ∃ hook ∈ s.hooks, hook.id = id)) ∧
      ∀ (i : Nat) (c : Call), s.calls[i]? = some c →
        (ranBy i s.log).reverse.Pairwise (· > ·) ∧
          ∀ (result : Option JoinError) (hook : Hook) (err : String), c.stage = .returned result →
            Note.failed i hook err ∈ s.log →
            ∃ joinErr, result = some joinErr ∧ hook.name ++ ": " ++ err ∈ joinErr.errs := by
  refine ⟨nodup_ranIds hs, fun hrest id hid => ⟨?_, fun hnot => ?_⟩, fun i c hc => ⟨?_, ?_⟩⟩
  · rintro ⟨c, hc, hlt⟩
    exact count_eq_one_of_before hs hrest hc hlt
  · have hone := count_at_rest hs hrest hid
    have hpos : 0 < (s.hooks.map Hook.id).count id := by
      rw [List.count_eq_zero.mpr hnot] at hone
      omega
    obtain ⟨hook, hhook, hsame⟩ := List.mem_map.mp (List.count_pos_iff.mp hpos)
    exact ⟨hook, hhook, hsame⟩
  -- the part of the ordered list that has run
  · rw [List.pairwise_reverse]
    exact (List.pairwise_append.mp ((orderly_of_reachable hs).calls hc).order).2.1
  · intro result hook err hreturned hfailed
    have hreports := ((orderly_of_reachable hs).calls hc).reports
    rw [hreturned] at hreports
    have hmem : hook.failure err ∈ (failuresBy i s.log).reverse :=
      List.mem_reverse.mpr (List.mem_filterMap.mpr ⟨_, hfailed, if_pos rfl⟩)
    obtain ⟨joinErr, hjoin, hin⟩ := mem_of_joined hmem
    exact ⟨joinErr, hreports.trans hjoin, hin⟩

/-- Two hooks, one of which registers a third while it runs and both of which fail; and a second
    `Shutdown` that starts in between. -/
def reentrant : List Event :=
  [.onShutdown "db" true, .onShutdown " " true, .shutdown, .take 0, .loop 0,
    .onShutdown "cache" true, .leave 0 (some "timeout"), .shutdown, .loop 0, .take 1, .loop 1,
    .leave 0 (some "closed"), .leave 1 none, .loop 1, .loop 0]

/-- All three hooks have run, and the first `Shutdown` reports both errors. -/
theorem hooks_run_once_of_reentrant :
    ∃ s : Sys, lifecycle.Reachable s ∧ (∀ c ∈ s.calls, c.stage.isReturned = true) ∧
      s.next = 3 ∧ s.hooks = [] ∧ (∀ id < 3, id ∈ ranIds s.log) ∧ (ranIds s.log).Nodup ∧
      ∃ c joinErr, s.calls[0]? = some c ∧ c.stage = .returned (some joinErr) ∧
        "shutdown hook: timeout" ∈ joinErr.errs := by
  have hrun : (lifecycle.run newLifecycle reentrant).map (fun s =>
      (s.calls.all fun c => c.stage.isReturned, s.next, s.hooks, s.calls[0]?.isSome,
        decide (Note.failed 0 ⟨1, "shutdown hook"⟩ "timeout" ∈ s.log))) =
      some (true, 3, [], true, true) := by
    decide +kernel
  obtain ⟨s, hs, hfacts⟩ := Option.map_eq_some_iff.mp hrun
  simp only [Prod.mk.injEq] at hfacts
  obtain ⟨hall, hnext, hhooks, hcall, hfailed⟩ := hfacts
  have hreach : lifecycle.Reachable s := System.Reachable.run (.init rfl) hs
  have hrest := List.all_eq_true.mp hall
  obtain ⟨hnodup, hran, hcalls⟩ := hooks_run_once hreach
  obtain ⟨c, hc⟩ := Option.isSome_iff_exists.mp hcall
  refine ⟨s, hreach, hrest, hnext, hhooks, fun id hid => ?_, hnodup, c, ?_⟩
  · by_contra hnot
    obtain ⟨hook, hhook, -⟩ := (hran hrest id (hnext ▸ hid)).2 hnot
    rw [hhooks] at hhook
    cases hhook
  · obtain ⟨result, hstage⟩ := Stage.eq_returned (hrest c (List.mem_of_getElem? hc))
    obtain ⟨joinErr, rfl, hin⟩ := (hcalls 0 c hc).2 result _ _ hstage (of_decide_eq_true hfailed)
    exact ⟨joinErr, hc, hstage, hin⟩

end ServiceRuntime.Startup.Lifecycle
