import RowStream.Cursor.Next

/-!
# Extracting rows

Three ways of reading a cursor beyond single advances: all rows into a list, the first row alone,
and rows one by one with the error that ended them as the last item.
-/

namespace RowStream

/-- What an extraction has found out when it closes the cursor. -/
inductive Verdict
  /-- An error, whatever becomes of the stop query. -/
  | failure (e : Error)
  /-- Success, unless the stop query fails. -/
  | success
  /-- No row, unless the stop query fails. -/
  | noRow

/-- The result of an extraction, given the error of the stop query. -/
def Verdict.result : Verdict → Option Error → Except Error Unit
  | failure e, _ => .error e
  | _, some e => .error e
  | success, none => .ok ()
  | noRow, none => .error .emptyResult

/-! ## 1. The first row -/

/-- How far the extraction of the first row has come. -/
inductive One (t : Target)
  /-- About to look whether the row at hand is null. -/
  | look (slot : t.Slot)
  | advancing (n : Next t)
  /-- About to look for an error. -/
  | judge (slot : t.Slot) (more : Bool)
  | closing (slot : t.Slot) (verdict : Verdict) (c : Close)
  | done (slot : t.Slot) (result : Except Error Unit)

namespace One

variable {t : Target}

/-- How the extraction goes on with its advance. -/
def ofNext (n : Next t) : One t :=
  match n.result? with
  | some more => judge n.slot more
  | none => advancing n

/-- How the extraction goes on with closing the cursor. -/
def ofClose (slot : t.Slot) (verdict : Verdict) : Close → One t
  | .done stopError => done slot (verdict.result stopError)
  | c => closing slot verdict c

/-- The next step, unless the extraction waits or has ended. -/
def step (setup : Setup) (c : Cursor) : One t → Option (Turn (One t))
  | look slot =>
    some ⟨c, if c.isNil then closing slot (.failure .emptyResult) .mark
      else advancing (.start slot), []⟩
  | advancing n => (n.step setup c).map (Turn.map ofNext)
  | judge slot more =>
    let verdict := match c.error? with
      | some e => Verdict.failure e
      | none => if more then .success else .noRow
    some ⟨c, closing slot verdict .mark, []⟩
  | closing slot verdict close => (close.step c).map (Turn.map (ofClose slot verdict))
  | done _ _ => none

/-- The query that the extraction waits for. -/
def awaits? : One t → Option Query.Kind
  | advancing n => n.awaits?
  | closing _ _ c => c.awaits?
  | _ => none

/-- Takes back the answer to its query. -/
def answer (a : Answer) : One t → One t
  | advancing n => advancing (n.answer a)
  | closing slot verdict c => closing slot verdict (c.answer a)
  | o => o

/-- Wakes an extraction that sleeps. -/
def wake : One t → One t
  | advancing n => advancing n.wake
  | o => o

/-- The destination and the result, once the extraction has ended. -/
def result? : One t → Option (t.Slot × Except Error Unit)
  | done slot result => some (slot, result)
  | _ => none

/-- Whether a breakdown of the connection has ended the extraction. -/
def isAborted : One t → Bool
  | advancing n => n.isAborted
  | closing _ _ c => c.isAborted
  | _ => false

end One

/-! ## 2. All rows -/

/-- How far the extraction of all rows has come: the values decoded so far, and the values of the
caller's list that have not been overwritten. -/
inductive All (t : Target)
  | advancing (got spare : List t.Slot) (n : Next t)
  /-- About to look for an error. -/
  | judge (got : List t.Slot)
  | closing (got : List t.Slot) (verdict : Verdict) (c : Close)
  | done (got : List t.Slot) (result : Except Error Unit)

namespace All

variable {t : Target}

/-- Advances into the next value of the caller's list, or into a fresh one. -/
def start (got spare : List t.Slot) : All t :=
  match spare with
  | [] => advancing got [] (.start t.blank)
  | slot :: spare => advancing got spare (.start slot)

/-- How the extraction goes on with its advance. -/
def ofNext (got spare : List t.Slot) (n : Next t) : All t :=
  match n.result? with
  | some true => start (got ++ [n.slot]) spare
  | some false => judge got
  | none => advancing got spare n

/-- How the extraction goes on with closing the cursor. -/
def ofClose (got : List t.Slot) (verdict : Verdict) : Close → All t
  | .done stopError => done got (verdict.result stopError)
  | c => closing got verdict c

/-- The next step, unless the extraction waits or has ended. -/
def step (setup : Setup) (c : Cursor) : All t → Option (Turn (All t))
  | advancing got spare n => (n.step setup c).map (Turn.map (ofNext got spare))
  | judge got =>
    let verdict := match c.error? with
      | some e => Verdict.failure e
      | none => .success
    some ⟨c, closing got verdict .mark, []⟩
  | closing got verdict close => (close.step c).map (Turn.map (ofClose got verdict))
  | done _ _ => none

/-- The query that the extraction waits for. -/
def awaits? : All t → Option Query.Kind
  | advancing _ _ n => n.awaits?
  | closing _ _ c => c.awaits?
  | _ => none

/-- Takes back the answer to its query. -/
def answer (a : Answer) : All t → All t
  | advancing got spare n => advancing got spare (n.answer a)
  | closing got verdict c => closing got verdict (c.answer a)
  | x => x

/-- Wakes an extraction that sleeps. -/
def wake : All t → All t
  | advancing got spare n => advancing got spare n.wake
  | x => x

/-- The values and the result, once the extraction has ended. -/
def result? : All t → Option (List t.Slot × Except Error Unit)
  | done got result => some (got, result)
  | _ => none

/-- Whether a breakdown of the connection has ended the extraction. -/
def isAborted : All t → Bool
  | advancing _ _ n => n.isAborted
  | closing _ _ c => c.isAborted
  | _ => false

end All

/-! ## 3. Rows one by one -/

/-- An item of the rows: a value, the error that ended them, or nothing. -/
abbrev Item (t : Target) := Option (Except Error t.Slot)

/-- How far the next item of the rows has come. -/
inductive NextItem (t : Target)
  | advancing (n : Next t)
  /-- About to look for an error. -/
  | judge
  | done (item : Item t)

namespace NextItem

variable {t : Target}

/-- Items are decoded into fresh values.  Once the rows have ended there are none. -/
def start (ended : Bool) : NextItem t :=
  if ended then done none else advancing (.start t.blank)

/-- How the item goes on with its advance. -/
def ofNext (n : Next t) : NextItem t :=
  match n.result? with
  | some true => done (some (.ok n.slot))
  | some false => judge
  | none => advancing n

/-- The next step, unless the item waits or is there. -/
def step (setup : Setup) (c : Cursor) : NextItem t → Option (Turn (NextItem t))
  | advancing n => (n.step setup c).map (Turn.map ofNext)
  | judge => some ⟨c, done (c.error?.map .error), []⟩
  | done _ => none

/-- The query that the item waits for. -/
def awaits? : NextItem t → Option Query.Kind
  | advancing n => n.awaits?
  | _ => none

/-- Takes back the answer to its query. -/
def answer (a : Answer) : NextItem t → NextItem t
  | advancing n => advancing (n.answer a)
  | x => x

/-- Wakes an item that sleeps. -/
def wake : NextItem t → NextItem t
  | advancing n => advancing n.wake
  | x => x

/-- The item, once it is there. -/
def result? : NextItem t → Option (Item t)
  | done item => some item
  | _ => none

/-- Whether a breakdown of the connection has ended the search for the item. -/
def isAborted : NextItem t → Bool
  | advancing n => n.isAborted
  | _ => false

end NextItem
end RowStream
