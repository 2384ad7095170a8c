import ServiceRuntime.Transition.History
import ServiceRuntime.Idempotency.Steps

/-!
# Where Responses Come From

Every response that `Begin` reads from the table was passed to `Complete` before, by some
request. Which request that can have been is a relation between what the two requests brought
to the store. Whatever relation holds between a request that calls `Complete` and the row it
finds, holds between the request that stored a response and the one that gets it.
-/

namespace ServiceRuntime.Idempotency

open Storage Transition

def Row.prepared (row : Row) : Prepared := ⟨row.scope, row.key, row.requestHash⟩

theorem Row.prepared_completed (row : Row) (result : ReplayResult) (completedAt : Int) :
    (row.completed result completedAt).prepared = row.prepared := rfl

/-- The request that calls `Complete` in an event. -/
def Event.completer? : Event → Option Nat
  | .act i (.complete _ _) => some i
  | _ => none

/-- A replay is justified when its response was passed to `Complete` by a request that is
    related to the one that gets it. -/
def ReplaysFrom (rel : Prepared → Prepared → Prop) : Entry → List Entry → Prop
  | .replayed _ p result, older => ∃ i q, rel q p ∧ Entry.completing i q result ∈ older
  | _, _ => True

/-- Every stored response was passed to `Complete` by a request related to its row; and every
    response replayed so far by one related to the request that got it. -/
structure Origins (rel : Prepared → Prepared → Prop) (store : Store) (log : List Entry) :
    Prop where
  stored : ∀ row ∈ store.rows, ∀ code, row.responseCode = some code →
    ∃ i q, rel q row.prepared ∧ Entry.completing i q (row.replay code) ∈ log
  justified : Justified (ReplaysFrom rel) log

namespace Origins

variable {rel : Prepared → Prepared → Prop} {store : Store} {log : List Entry}

theorem empty : Origins rel KeyedTable.empty [] where
  stored := by
    intro row hrow
    cases hrow
  justified := trivial

theorem mono (h : Origins rel store log) {store' : Store} {new : List Entry}
    (hrows : ∀ row ∈ store'.rows, row ∈ store.rows ∨ row.responseCode = none)
    (hnew : ∀ e ∈ new, ∀ l, ReplaysFrom rel e (l ++ log)) : Origins rel store' (new ++ log) where
  stored := by
    intro row hrow code hcode
    rcases hrows row hrow with hold | hnone
    · obtain ⟨i, q, hq, hi⟩ := h.stored row hold code hcode
      exact ⟨i, q, hq, List.mem_append_right new hi⟩
    · rw [hnone] at hcode
      cases hcode
  justified := h.justified.append hnew

theorem note (h : Origins rel store log) {e : Entry} (he : ∀ l, ReplaysFrom rel e (l ++ log)) :
    Origins rel store (e :: log) := by
  have hnew : ∀ e' ∈ [e], ∀ l, ReplaysFrom rel e' (l ++ log) := by
    intro e' he'
    rw [List.mem_singleton] at he'
    exact he' ▸ he
  exact h.mono (fun row hrow => .inl hrow) hnew

theorem insert (h : Origins rel store log) {row : Row} {store' : Store}
    (hpending : row.responseCode = none) (hinsert : store.insert row = some store') :
    Origins rel store' log := by
  obtain ⟨-, hrows⟩ := KeyedTable.insert_eq_some hinsert
  have hmono : Origins rel store' ([] ++ log) := by
    apply h.mono
    · intro row' hrow'
      rw [hrows] at hrow'
      rcases List.mem_cons.mp hrow' with rfl | hold
      · exact .inr hpending
      · exact .inl hold
    · intro e he
      cases he
  exact hmono

theorem sweep (h : Origins rel store log) (now : Int) :
    Origins rel (store.cleanup now) ((store.expired now).map (Entry.deleted · now) ++ log) := by
  apply h.mono
  · intro row hrow
    exact .inl (Store.mem_of_mem_cleanup hrow)
  · intro e he l
    obtain ⟨row, -, rfl⟩ := List.mem_map.mp he
    trivial

theorem replay (h : Origins rel store log) {i : Nat} {p : Prepared} {result : ReplayResult}
    (hdecide : decideBegin (store.get p.scope p.key) p.hash = .replay result) :
    Origins rel store (.replayed i p result :: log) := by
  obtain ⟨row, code, hrow, hhash, hcode, rfl⟩ := decideBegin_eq_replay hdecide
  obtain ⟨hmem, hscope, hkey⟩ := Store.get_eq_some_iff.mp hrow
  have hp : row.prepared = p := by
    rw [Row.prepared, hscope, hkey, hhash]
  apply h.note
  intro l
  obtain ⟨k, q, hq, hk⟩ := h.stored row hmem code hcode
  exact ⟨k, q, hp ▸ hq, List.mem_append_right l hk⟩

theorem complete (h : Origins rel store log) {i : Nat} {p : Prepared} {result : ReplayResult}
    {completedAt : Int} (hrel : ∀ row, store.get p.scope p.key = some row → rel p row.prepared) :
    Origins rel (store.complete p.scope p.key result completedAt)
      (.completing i p result :: log) where
  stored := by
    intro row hrow code hcode
    rcases Store.mem_complete hrow with ⟨old, hold, rfl⟩ | hold
    -- the only code the row can have is the one just written
    · cases hcode
      refine ⟨i, p, ?_, ?_⟩
      · rw [Row.prepared_completed]
        exact hrel old hold
      · rw [Row.replay_completed]
        exact List.mem_cons_self
    · obtain ⟨k, q, hq, hk⟩ := h.stored row hold code hcode
      exact ⟨k, q, hq, List.mem_cons_of_mem _ hk⟩
  justified := ⟨trivial, h.justified⟩

end Origins

/-- Every step keeps the origins, if a request that calls `Complete` is related to the row it
    finds. -/
theorem Step.origins {rel : Prepared → Prepared → Prop} {cfg : Settings} {s s' : Sys}
    {e : Event} (h : Step cfg s e s')
    (hrel : ∀ i ∈ e.completer?, ∀ r ∈ s.requests[i]?,
      ∀ row ∈ s.store.get r.prepared.scope r.prepared.key, rel r.prepared row.prepared)
    (horigins : Origins rel s.store s.log) : Origins rel s'.store s'.log := by
  cases h with
  | refuse | arrive => exact horigins
  | sweep => exact horigins.sweep _
  | cancel | quiet => exact horigins
  | cleanup => exact horigins.sweep _
  | replay _ _ hdecide => exact horigins.replay hdecide
  | insert _ _ hinsert => exact (horigins.insert rfl hinsert).note fun _ => trivial
  | start => exact horigins.note fun _ => trivial
  | @complete i r result completedAt fault stored store hr _ hstore =>
    rcases hstore with ⟨-, rfl⟩ | ⟨-, rfl⟩
    · exact horigins.note fun _ => trivial
    · exact horigins.complete fun row hrow => hrel i rfl r hr row hrow

end ServiceRuntime.Idempotency
