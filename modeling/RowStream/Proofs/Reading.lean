import RowStream.Proofs.Following

/-!
# Reading a stream

An advance reads a stream if it follows it and all entries of the stream are rows that fit the
destination.  Then it never meets an entry without a value, and what is preserved of following a
stream is preserved of reading it.
-/

namespace RowStream.Next

variable {t : Target}

/-- An advance that reads a stream, after the rows that have been handed out before it. -/
structure Reads (s : Stream) (c : Cursor) (n : Next t) (tasks : List Task) (supply : Supply)
    (taken : List Datum) : Prop where
  course : Course s.final s.short c (n.holders tasks) supply
  account : ∃ hand, n.Hands hand ∧ taken ++ hand ++ c.rows.toList ++ n.unpacked ++
    s.setup.rowsOfAll (c.outlook (n.coming tasks supply)) = s.rows
  readable : ∀ text ∈ c.outlook (n.coming tasks supply), ∃ rows, s.setup.rows text = .ok rows
  decodable : ∀ row ∈ s.rows, ∃ value, t.value? row = some value
  quiet : s.calm → s.schedule = .betweenCalls ∨ ∀ e, .error e ∉ n.coming tasks supply
  fits : n.Fits s c
  awake : n.phase = .asleep →
    c.fetching = true ∨ ∃ outcome low, .running (.wake outcome low) ∈ tasks

variable {s : Stream} {c : Cursor} {n : Next t} {tasks : List Task} {supply : Supply}
  {taken : List Datum}

-- Reading a stream is following it while all that has not been handed out are rows that fit.
theorem reads_iff :
    n.Reads s c tasks supply taken ↔
      (∃ left, n.Follows s c tasks supply (left.map .ok) ∧ taken ++ left = s.rows) ∧
        ∀ row ∈ s.rows, ∃ value, t.value? row = some value := by
  constructor
  · intro h
    obtain ⟨hand, hhands, hrows⟩ := h.account
    let left := hand ++ c.rows.toList ++ n.unpacked ++
      s.setup.rowsOfAll (c.outlook (n.coming tasks supply))
    have hentries : hand.map .ok ++ n.ahead s.setup c (c.outlook (n.coming tasks supply)) =
        left.map .ok := by
      rw [ahead, Setup.entriesOfAll_of_readable h.readable]
      simp only [left, List.map_append, List.append_assoc]
    have hleft : taken ++ left = s.rows := by
      rw [← hrows]
      simp only [left, List.append_assoc]
    exact ⟨⟨left, ⟨h.course, ⟨hand, hhands, hentries⟩, h.quiet, h.fits, h.awake⟩, hleft⟩,
      h.decodable⟩
  · rintro ⟨⟨left, h, hleft⟩, hdecode⟩
    obtain ⟨hand, hhands, hentries⟩ := h.account
    -- Entries that are all rows come from texts that can be read.
    have hread : ∀ text ∈ c.outlook (n.coming tasks supply),
        ∃ rows, s.setup.rows text = .ok rows := by
      refine Setup.readable_of_entries fun e hmem => ?_
      have hmem' : .error e ∈ (left.map .ok : List Entry) := by
        rw [← hentries]
        exact List.mem_append_right _ (List.mem_append_right _ hmem)
      obtain ⟨row, -, hrow⟩ := List.mem_map.mp hmem'
      cases hrow
    refine ⟨h.course, ⟨hand, hhands, ?_⟩, hread, hdecode, h.quiet, h.fits, h.awake⟩
    rw [ahead, Setup.entriesOfAll_of_readable hread, ← List.map_append, ← List.map_append]
      at hentries
    rw [← hleft, ← (List.map_inj_right fun _ _ => Except.ok.inj).mp hentries]
    simp only [List.append_assoc]

namespace Reads

variable {c' : Cursor} {n' : Next t} {tasks' : List Task} {supply' : Supply}

-- What is preserved of following a stream, whatever is left of it, is preserved of reading it.
theorem of_follows (h : n.Reads s c tasks supply taken)
    (hfollows : ∀ entries, n.Follows s c tasks supply entries →
      n'.Follows s c' tasks' supply' entries) : n'.Reads s c' tasks' supply' taken := by
  obtain ⟨⟨left, hleft, hrows⟩, hdecode⟩ := reads_iff.mp h
  exact reads_iff.mpr ⟨⟨left, hfollows _ hleft, hrows⟩, hdecode⟩

theorem turn {turn : Turn (Next t)} (h : n.Reads s c tasks supply taken)
    (hstep : n.step s.setup c = some turn) : turn.next.Reads s turn.cursor tasks supply taken := by
  obtain ⟨⟨left, hleft, hrows⟩, hdecode⟩ := reads_iff.mp h
  rcases hleft.turn hstep with hnext | ⟨hfallen, -⟩
  · exact reads_iff.mpr ⟨⟨left, hnext, hrows⟩, hdecode⟩
  · obtain ⟨e, hfails, -⟩ := hfallen.meets
    exact absurd hfails (Target.not_failsAt (fun row hrow =>
      hdecode row (hrows ▸ List.mem_append_right taken hrow)) e)

theorem answer {outcome : Except Error Reply} (h : n.Reads s c tasks (outcome :: supply) taken)
    (hawaits : n.awaits? = some .more) :
    (n.answer (.ofOutcome outcome)).Reads s c tasks supply taken :=
  h.of_follows fun _ h => h.answer hawaits

theorem stopped {a : Answer} (h : n.Reads s c tasks supply taken)
    (hawaits : n.awaits? = some .stop) (ha : a ≠ .breakdown) :
    (n.answer a).Reads s c tasks supply taken :=
  h.of_follows fun _ h => h.stopped hawaits ha

-- When there is no row, all rows have been handed out, or the end was found while some were being
-- added.
theorem ended {slot : t.Slot} (h : (⟨slot, .done false⟩ : Next t).Reads s c tasks supply taken) :
    c.closed = true ∧ c.error? = s.final ∧ taken <+: s.rows ∧ (s.calm → taken = s.rows) := by
  obtain ⟨⟨left, hleft, hrows⟩, -⟩ := reads_iff.mp h
  obtain ⟨hclosed, herror, hnone⟩ := hleft.ended
  refine ⟨hclosed, herror, ⟨left, hrows⟩, fun hcalm => ?_⟩
  rw [← hrows, List.map_eq_nil_iff.mp (hnone hcalm), List.append_nil]

theorem goesOn (h : n.Reads s c tasks supply taken) (hstep : n.step s.setup c = none) :
    (∃ more, n.phase = .done more) ∨ n.awaits? = some .stop ∨ n.phase = .asleep ∨
      (n.awaits? = some .more ∧ .waiting ∈ n.holders tasks) := by
  obtain ⟨⟨left, hleft, -⟩, -⟩ := reads_iff.mp h
  exact hleft.goesOn hstep

theorem task_goesOn (h : n.Reads s c tasks supply taken) (hasleep : n.phase = .asleep) :
    ∃ task ∈ tasks, (∃ turn, task.step s.setup c = some turn) ∨
      (task.awaits? = some .more ∧ .waiting ∈ n.holders tasks) := by
  obtain ⟨⟨left, hleft, -⟩, -⟩ := reads_iff.mp h
  exact hleft.task_goesOn hasleep

end Reads
end RowStream.Next
