import RowStream.Cursor.Basic
import RowStream.Proofs.Decode
import RowStream.Pseudotype

/-!
# Changes of a cursor

What recording an error, adding a reply and opening the gate do to each part of a cursor, and the
rows that texts, replies and cursors stand for.
-/

namespace RowStream

/-! ## 1. Rows of texts and replies -/

/-- A setup in which tagged objects stand for row values as the options say. -/
def Setup.ordinary (token : Int) (options : Options) : Setup where
  token
  options
  normalize value := (Pseudotype.normalize options value).mapError .decode

/-- The rows of a text; a text that cannot be read has none. -/
def Setup.rowsOf (setup : Setup) (text : String) : List Datum :=
  (setup.rows text).toOption.getD []

theorem Setup.rowsOf_eq {setup : Setup} {text : String} {rows : List Datum}
    (h : setup.rows text = .ok rows) : setup.rowsOf text = rows := by
  rw [rowsOf, h]
  rfl

/-- The rows of texts, one text after the other. -/
def Setup.rowsOfAll (setup : Setup) (texts : List String) : List Datum :=
  texts.flatMap setup.rowsOf

@[simp] theorem Setup.rowsOfAll_nil (setup : Setup) : setup.rowsOfAll [] = [] := rfl

@[simp] theorem Setup.rowsOfAll_cons (setup : Setup) (text : String) (texts : List String) :
    setup.rowsOfAll (text :: texts) = setup.rowsOf text ++ setup.rowsOfAll texts := rfl

@[simp] theorem Setup.rowsOfAll_append (setup : Setup) (texts more : List String) :
    setup.rowsOfAll (texts ++ more) = setup.rowsOfAll texts ++ setup.rowsOfAll more :=
  List.flatMap_append

namespace Reply

/-- The texts that a reply adds to an open cursor; an error reply adds none. -/
def texts (reply : Reply) : List String := if reply.error?.isSome then [] else reply.batches

theorem texts_of_error {reply : Reply} {e : Error} (h : reply.error? = some e) :
    reply.texts = [] := by
  rw [texts, h]
  rfl

theorem texts_of_success {reply : Reply} (h : reply.error? = none) :
    reply.texts = reply.batches := by
  rw [texts, h]
  rfl

-- No reply follows one that carries an error.
theorem isLast_of_error {reply : Reply} {e : Error} (h : reply.error? = some e) :
    reply.isLast = true := by
  -- Both depend on the kind of the reply only.
  unfold error? isLast at *
  cases hkind : reply.kind <;> rw [hkind] at h <;> first | rfl | cases h

end Reply

namespace Cursor

variable {c : Cursor} {reply : Reply} {e : Error}

/-! ## 2. Parts that do not change -/

@[simp] theorem rows_record : (c.record e).rows = c.rows := rfl
@[simp] theorem batches_record : (c.record e).batches = c.batches := rfl
@[simp] theorem closed_record : (c.record e).closed = c.closed := rfl
@[simp] theorem finished_record : (c.record e).finished = c.finished := rfl
@[simp] theorem fetching_record : (c.record e).fetching = c.fetching := rfl

@[simp] theorem rows_openGate : c.openGate.rows = c.rows := rfl
@[simp] theorem batches_openGate : c.openGate.batches = c.batches := rfl
@[simp] theorem closed_openGate : c.openGate.closed = c.closed := rfl
@[simp] theorem finished_openGate : c.openGate.finished = c.finished := rfl
@[simp] theorem error?_openGate : c.openGate.error? = c.error? := rfl
@[simp] theorem fetching_openGate : c.openGate.fetching = false := rfl

/-! ## 3. What recording and adding change -/

@[simp] theorem error?_record : (c.record e).error? = c.error?.or (some e) := by
  unfold record
  cases c.error? <;> rfl

-- Adding a reply in the two forms that it takes for an open cursor.
theorem accept_of_open (h : c.closed = false) :
    c.accept reply =
      match reply.error? with
      | some e => { c.record e with finished := true }
      | none =>
        { c with
          batches := c.batches.pushAll reply.batches
          finished := !reply.kind.hasMore
          profile := reply.profile.orElse fun _ => c.profile } := by
  unfold accept
  rw [h]
  rfl

theorem accept_of_closed (h : c.closed = true) : c.accept reply = c := by
  unfold accept
  rw [h]
  rfl

-- A reply is added to the texts; rows and closing are never touched by it.
@[simp] theorem rows_accept : (c.accept reply).rows = c.rows := by
  unfold accept
  split
  · rfl
  · split <;> rfl

@[simp] theorem closed_accept : (c.accept reply).closed = c.closed := by
  unfold accept
  split
  · rfl
  · split <;> rfl

-- On an open cursor the three parts that a reply changes are given by the reply alone.
theorem toList_batches_accept (h : c.closed = false) :
    (c.accept reply).batches.toList = c.batches.toList ++ reply.texts := by
  rw [accept_of_open h]
  split
  next e he => rw [Reply.texts_of_error he, List.append_nil]; rfl
  next he => rw [Reply.texts_of_success he, ← Queue.toList_pushAll]

theorem finished_accept (h : c.closed = false) : (c.accept reply).finished = reply.isLast := by
  rw [accept_of_open h]
  split
  next e he => exact (Reply.isLast_of_error he).symm
  next => rfl

theorem error?_accept (h : c.closed = false) :
    (c.accept reply).error? = c.error?.or reply.error? := by
  rw [accept_of_open h]
  split
  next e he => rw [he]; exact error?_record
  next he => rw [he, Option.or_none]

-- The first error stays.
theorem error?_accept_of_some (h : c.error? = some e) : (c.accept reply).error? = some e := by
  by_cases hc : c.closed = true
  · rw [accept_of_closed hc, h]
  · rw [error?_accept (Bool.eq_false_iff.mpr hc), h, Option.some_or]

theorem canContinue_eq_true_iff :
    c.canContinue = true ↔ c.closed = false ∧ c.finished = false ∧ c.error? = none := by
  simp [canContinue, and_assoc]

theorem canContinue_of_closed (h : c.closed = true) : c.canContinue = false := by
  rw [canContinue, h]
  rfl

theorem canContinue_of_error (h : c.error? ≠ none) : c.canContinue = false := by
  rw [canContinue, Option.isNone_eq_false_iff.mpr (Option.isSome_iff_ne_none.mpr h), Bool.and_false]

theorem canContinue_of_finished (h : c.finished = true) : c.canContinue = false := by
  rw [canContinue, h, Bool.not_true, Bool.and_false, Bool.false_and]

/-- The rows of the texts that have not been read. -/
def unread (setup : Setup) (c : Cursor) : List Datum := setup.rowsOfAll c.batches.toList

end Cursor
end RowStream
