import RowStream.Proofs.Changes
import RowStream.Proofs.Steps

/-!
# What a fetch does to a cursor

A fetch changes the queued texts only by adding a reply, leaves rows and closing alone, and keeps
the first error.  The gate is passed by the fetch that holds it afterwards.
-/

namespace RowStream.Fetch

variable {setup : Setup} {c : Cursor} {f : Fetch} {turn : Turn Fetch}

/-- Whether a fetch has passed the gate and not left it. -/
def holds : Fetch → Bool
  | check | send | waiting | fold _ | aborted => true
  | _ => false

/-- The reply that a fetch is about to add. -/
def brings? : Fetch → Option Reply
  | fold (.ok reply) => some reply
  | _ => none

/-- The reply that the next step of a fetch adds to a cursor; a closed cursor takes none. -/
def accepts? (c : Cursor) (f : Fetch) : Option Reply := if c.closed then none else f.brings?

theorem accepts?_of_brings?_eq_none (h : f.brings? = none) : f.accepts? c = none := by
  rw [accepts?, h, ite_self]

theorem accepts?_fold_of_open (reply : Reply) (h : c.closed = false) :
    (fold (.ok reply)).accepts? c = some reply := by
  rw [accepts?, h]
  rfl

theorem Steps.rows_eq (h : Steps setup c f turn) : turn.cursor.rows = c.rows := by
  cases h with
  | adds reply => rw [Cursor.rows_openGate, Cursor.rows_accept]
  | _ => rfl

theorem Steps.closed_eq (h : Steps setup c f turn) : turn.cursor.closed = c.closed := by
  cases h with
  | adds reply => rw [Cursor.closed_openGate, Cursor.closed_accept]
  | _ => rfl

-- Only `adds` reaches the texts, and a closed cursor takes nothing from it.
theorem Steps.toList_batches (h : Steps setup c f turn) :
    turn.cursor.batches.toList =
      c.batches.toList ++ ((f.accepts? c).map Reply.texts).getD [] := by
  cases h with
  | adds reply =>
    rw [Cursor.batches_openGate]
    cases hclosed : c.closed with
    | true =>
      rw [Cursor.accept_of_closed hclosed, accepts?, if_pos hclosed]
      exact (List.append_nil _).symm
    | false =>
      rw [Cursor.toList_batches_accept hclosed, accepts?_fold_of_open reply hclosed]
      rfl
  | _ =>
    rw [accepts?_of_brings?_eq_none rfl]
    exact (List.append_nil _).symm

theorem Steps.size_batches (h : Steps setup c f turn) :
    turn.cursor.batches.size =
      c.batches.size + ((f.accepts? c).map fun r => r.texts.length).getD 0 := by
  rw [Queue.size_eq_length, Queue.size_eq_length, h.toList_batches, List.length_append]
  cases f.accepts? c <;> rfl

-- The first error stays.
theorem Steps.error?_eq {e : Error} (h : Steps setup c f turn) (he : c.error? = some e) :
    turn.cursor.error? = some e := by
  cases h with
  | adds reply => rw [Cursor.error?_openGate, Cursor.error?_accept_of_some he]
  | fails e' => rw [Cursor.error?_openGate, Cursor.error?_record, he, Option.some_or]
  | _ => exact he

-- The last reply that was added says whether there are more.
theorem Steps.finished_eq (h : Steps setup c f turn) :
    turn.cursor.finished = ((f.accepts? c).map Reply.isLast).getD c.finished := by
  cases h with
  | adds reply =>
    cases hclosed : c.closed with
    | true =>
      rw [Cursor.finished_openGate, Cursor.accept_of_closed hclosed, accepts?, if_pos hclosed]
      rfl
    | false =>
      rw [Cursor.finished_openGate, Cursor.finished_accept hclosed,
        accepts?_fold_of_open reply hclosed]
      rfl
  | _ =>
    rw [accepts?_of_brings?_eq_none rfl]
    rfl

-- After a step the fetch has the gate, or the gate is open, or neither has changed.
theorem Steps.gate (h : Steps setup c f turn) :
    turn.next.holds = true ∨ turn.cursor.fetching = false ∨
      (f.holds = false ∧ turn.cursor.fetching = c.fetching) := by
  cases h with
  | passed | goesOn | asks => exact .inl rfl
  | turnsBack | adds | fails => exact .inr (.inl rfl)
  | refused | tells | looksAhead => exact .inr (.inr ⟨rfl, rfl⟩)

end RowStream.Fetch
