import RowStream.Proofs.Leaves

/-!
# The grammar of JSON texts

Which texts spell which outline, and that taking a value off a text is reading by this grammar: what
is taken is a text that spells the value, and from a text that spells a value that value is taken,
whatever stands around it.
-/

namespace RowStream.Json.Outline

open Text

/-! ## 1. Values -/

mutual

/-- A text spells a value, without white space around it. -/
inductive Spells : List Char → Outline → Prop
  | null : Spells ['n', 'u', 'l', 'l'] .null
  | yes : Spells ['t', 'r', 'u', 'e'] (.bool true)
  | no : Spells ['f', 'a', 'l', 's', 'e'] (.bool false)
  | number {p : List Char} {spelling : Number.Spelling}
    (h : takeNumber? false p = some (spelling, [])) : Spells p (.number spelling)
  | negative {p : List Char} {spelling : Number.Spelling}
    (h : takeNumber? true p = some (spelling, [])) : Spells ('-' :: p) (.number spelling)
  | string {p : List Char} {body : Spelled} (h : takeString? p = some (body, [])) :
    Spells ('"' :: p) (.string body)
  | emptyArray {b : List Char} (hb : Blank b) : Spells ('[' :: (b ++ [']'])) (.array .close)
  | array {p : List Char} {items : Outline.Items} (h : SpellsItems p items) :
    Spells ('[' :: p) (.array items)
  | emptyObject {b : List Char} (hb : Blank b) : Spells ('\x7b' :: (b ++ ['\x7d'])) (.object .close)
  | object {p : List Char} {members : Outline.Members} (h : SpellsMembers p members) :
    Spells ('\x7b' :: p) (.object members)

/-- A text spells items, at least one, and the end of their array. -/
inductive SpellsItems : List Char → Outline.Items → Prop
  | last {b p c : List Char} {value : Outline} (hb : Blank b) (h : Spells p value) (hc : Blank c) :
    SpellsItems (b ++ (p ++ (c ++ [']']))) (.item p value .close)
  | item {b p c rest : List Char} {value : Outline} {items : Outline.Items} (hb : Blank b)
    (h : Spells p value) (hc : Blank c) (hrest : SpellsItems rest items) :
    SpellsItems (b ++ (p ++ (c ++ ',' :: rest))) (.item p value items)

/-- A text spells members, at least one, and the end of their object. -/
inductive SpellsMembers : List Char → Outline.Members → Prop
  | last {a k a' b p c : List Char} {key : Spelled} {value : Outline} (ha : Blank a)
    (hkey : takeString? k = some (key, [])) (ha' : Blank a') (hb : Blank b) (h : Spells p value)
    (hc : Blank c) :
    SpellsMembers (a ++ '"' :: (k ++ (a' ++ ':' :: (b ++ (p ++ (c ++ ['\x7d']))))))
      (.member key value .close)
  | member {a k a' b p c rest : List Char} {key : Spelled} {value : Outline}
    {members : Outline.Members} (ha : Blank a) (hkey : takeString? k = some (key, []))
    (ha' : Blank a') (hb : Blank b) (h : Spells p value) (hc : Blank c)
    (hrest : SpellsMembers rest members) :
    SpellsMembers (a ++ '"' :: (k ++ (a' ++ ':' :: (b ++ (p ++ (c ++ ',' :: rest))))))
      (.member key value members)

end

theorem textBefore_append (p r : List Char) : textBefore (p ++ r) r = p := by
  rw [textBefore, List.length_append, Nat.add_sub_cancel, List.take_left]

-- The first item, and the rest if there is one.
theorem SpellsItems.first {p text : List Char} {value : Outline} {rest : Outline.Items}
    (h : SpellsItems p (.item text value rest)) : Spells text value ∧ text.length ≤ p.length ∧
      (rest = .close ∨ ∃ q, SpellsItems q rest ∧ q.length ≤ p.length) := by
  cases h with
  | last _ h =>
    refine ⟨h, ?_, .inl rfl⟩
    simp only [List.length_append]
    omega
  | item _ h _ hrest =>
    refine ⟨h, ?_, .inr ⟨_, hrest, ?_⟩⟩
    all_goals
      simp only [List.length_append, List.length_cons]
      omega

theorem SpellsMembers.first {p : List Char} {key : Spelled} {value : Outline}
    {rest : Outline.Members} (h : SpellsMembers p (.member key value rest)) :
    ∃ text, Spells text value ∧ text.length ≤ p.length ∧
      (rest = .close ∨ ∃ q, SpellsMembers q rest ∧ q.length ≤ p.length) := by
  cases h with
  | last _ _ _ _ h =>
    refine ⟨_, h, ?_, .inl rfl⟩
    simp only [List.length_append, List.length_cons]
    omega
  | member _ _ _ _ h _ hrest =>
    refine ⟨_, h, ?_, .inr ⟨_, hrest, ?_⟩⟩
    all_goals
      simp only [List.length_append, List.length_cons]
      omega

/-! ## 2. What is taken is spelled -/

/-- What is taken off a text with some fuel, if it is not broken off, is spelled at its front. -/
structure Spelt (fuel : Nat) : Prop where
  value : ∀ s value r, takeValue fuel s = (value, r) → value.isComplete = true →
    ∃ p, skip s = p ++ r ∧ Spells p value
  items : ∀ s items r, takeItems fuel s = (items, r) → items.isComplete = true →
    ∃ p, s = p ++ r ∧ SpellsItems p items
  members : ∀ s members r, takeMembers fuel s = (members, r) → members.isComplete = true →
    ∃ p, s = p ++ r ∧ SpellsMembers p members

variable {fuel : Nat} {s r : List Char}

theorem Spelt.value_succ (ih : Spelt fuel) {value : Outline}
    (h : takeValue (fuel + 1) s = (value, r)) (hcomplete : value.isComplete = true) :
    ∃ p, skip s = p ++ r ∧ Spells p value := by
  unfold takeValue at h
  split at h
  next rest hs =>
    rw [hs]
    split at h
    next after hafter =>
      cases h
      obtain ⟨b, hb, hrest⟩ := exists_blank rest
      rw [hafter] at hrest
      exact ⟨'[' :: (b ++ [']']), by simp [hrest], .emptyArray hb⟩
    next =>
      rcases hitems : takeItems fuel rest with ⟨items, after⟩
      rw [hitems] at h
      cases h
      obtain ⟨p, rfl, hp⟩ := ih.items rest items _ hitems hcomplete
      exact ⟨'[' :: p, rfl, .array hp⟩
  next rest hs =>
    rw [hs]
    split at h
    next after hafter =>
      cases h
      obtain ⟨b, hb, hrest⟩ := exists_blank rest
      rw [hafter] at hrest
      exact ⟨'\x7b' :: (b ++ ['\x7d']), by simp [hrest], .emptyObject hb⟩
    next =>
      rcases hmembers : takeMembers fuel rest with ⟨members, after⟩
      rw [hmembers] at h
      cases h
      obtain ⟨p, rfl, hp⟩ := ih.members rest members _ hmembers hcomplete
      exact ⟨'\x7b' :: p, rfl, .object hp⟩
  next rest hs =>
    rw [hs]
    split at h
    next body after hbody =>
      cases h
      obtain ⟨p, rfl, hp⟩ := exists_string hbody
      exact ⟨'"' :: p, rfl, .string hp⟩
    next =>
      cases h
      cases hcomplete
  next after hs =>
    cases h
    exact ⟨_, hs, .null⟩
  next after hs =>
    cases h
    exact ⟨_, hs, .yes⟩
  next after hs =>
    cases h
    exact ⟨_, hs, .no⟩
  next rest hs =>
    rw [hs]
    split at h
    next spelling after hnumber =>
      cases h
      obtain ⟨p, rfl, hp⟩ := exists_number hnumber
      exact ⟨'-' :: p, rfl, .negative hp⟩
    next =>
      cases h
      cases hcomplete
  next =>
    split at h
    next spelling after hnumber =>
      cases h
      obtain ⟨p, hs, hp⟩ := exists_number hnumber
      exact ⟨p, hs, .number hp⟩
    next =>
      cases h
      cases hcomplete

theorem Spelt.items_succ (ih : Spelt fuel) {items : Outline.Items}
    (h : takeItems (fuel + 1) s = (items, r)) (hcomplete : items.isComplete = true) :
    ∃ p, s = p ++ r ∧ SpellsItems p items := by
  unfold takeItems at h
  rcases hvalue : takeValue fuel s with ⟨value, after⟩
  rw [hvalue] at h
  dsimp only at h
  obtain ⟨b, hb, hs⟩ := exists_blank s
  obtain ⟨c, hc, hafter⟩ := exists_blank after
  split at h
  next rest hskip =>
    rcases hitems : takeItems fuel rest with ⟨items, after'⟩
    rw [hitems] at h
    cases h
    rw [Items.isComplete, Bool.and_eq_true] at hcomplete
    obtain ⟨p, hp, hspells⟩ := ih.value s value after hvalue hcomplete.1
    obtain ⟨q, rfl, hrest⟩ := ih.items rest items _ hitems hcomplete.2
    rw [hskip] at hafter
    rw [hp, textBefore_append]
    refine ⟨_, ?_, .item hb hspells hc hrest⟩
    rw [hs, hp, hafter]
    simp
  next after' hskip =>
    cases h
    rw [Items.isComplete, Bool.and_eq_true] at hcomplete
    obtain ⟨p, hp, hspells⟩ := ih.value s value after hvalue hcomplete.1
    rw [hskip] at hafter
    rw [hp, textBefore_append]
    refine ⟨_, ?_, .last hb hspells hc⟩
    rw [hs, hp, hafter]
    simp
  next =>
    cases h
    rw [Items.isComplete, Bool.and_eq_true] at hcomplete
    cases hcomplete.2

theorem Spelt.members_succ (ih : Spelt fuel) {members : Outline.Members}
    (h : takeMembers (fuel + 1) s = (members, r)) (hcomplete : members.isComplete = true) :
    ∃ p, s = p ++ r ∧ SpellsMembers p members := by
  unfold takeMembers at h
  obtain ⟨a, ha, hs⟩ := exists_blank s
  split at h
  next rest hskip =>
    rw [hskip] at hs
    split at h
    next =>
      cases h
      cases hcomplete
    next key after hkey =>
      obtain ⟨k, rfl, hk⟩ := exists_string hkey
      obtain ⟨a', ha', hafter⟩ := exists_blank after
      split at h
      next rest hskip' =>
        rw [hskip'] at hafter
        rcases hvalue : takeValue fuel rest with ⟨value, after'⟩
        rw [hvalue] at h
        dsimp only at h
        obtain ⟨b, hb, hrest⟩ := exists_blank rest
        obtain ⟨c, hc, hafter'⟩ := exists_blank after'
        split at h
        next rest' hskip'' =>
          rcases hmembers : takeMembers fuel rest' with ⟨members, after''⟩
          rw [hmembers] at h
          cases h
          rw [Members.isComplete, Bool.and_eq_true] at hcomplete
          obtain ⟨p, hp, hspells⟩ := ih.value rest value after' hvalue hcomplete.1
          obtain ⟨q, rfl, hq⟩ := ih.members rest' members _ hmembers hcomplete.2
          rw [hskip''] at hafter'
          refine ⟨_, ?_, .member ha hk ha' hb hspells hc hq⟩
          rw [hs, hafter, hrest, hp, hafter']
          simp
        next after'' hskip'' =>
          cases h
          rw [Members.isComplete, Bool.and_eq_true] at hcomplete
          obtain ⟨p, hp, hspells⟩ := ih.value rest value after' hvalue hcomplete.1
          rw [hskip''] at hafter'
          refine ⟨_, ?_, .last ha hk ha' hb hspells hc⟩
          rw [hs, hafter, hrest, hp, hafter']
          simp
        next =>
          cases h
          rw [Members.isComplete, Bool.and_eq_true] at hcomplete
          cases hcomplete.2
      next =>
        cases h
        rw [Members.isComplete, Bool.and_eq_true] at hcomplete
        cases hcomplete.2
  next =>
    cases h
    cases hcomplete

theorem spelt (fuel : Nat) : Spelt fuel := by
  induction fuel with
  | zero =>
    constructor
    all_goals
      intro s taken r h hcomplete
      cases h
      cases hcomplete
  | succ fuel ih =>
    exact ⟨fun _ _ _ => ih.value_succ, fun _ _ _ => ih.items_succ, fun _ _ _ => ih.members_succ⟩

/-! ## 3. What is spelled is taken -/

section

attribute [local simp] takeValue takeItems takeMembers

variable {rest : List Char}

theorem takeValue_null (hs : skip s = 'n' :: 'u' :: 'l' :: 'l' :: r) :
    takeValue (fuel + 1) s = (.null, r) := by
  simp [hs]

theorem takeValue_true (hs : skip s = 't' :: 'r' :: 'u' :: 'e' :: r) :
    takeValue (fuel + 1) s = (.bool true, r) := by
  simp [hs]

theorem takeValue_false (hs : skip s = 'f' :: 'a' :: 'l' :: 's' :: 'e' :: r) :
    takeValue (fuel + 1) s = (.bool false, r) := by
  simp [hs]

theorem takeValue_emptyArray (hs : skip s = '[' :: rest) (hrest : skip rest = ']' :: r) :
    takeValue (fuel + 1) s = (.array .close, r) := by
  simp [hs, hrest]

theorem takeValue_array {items : Outline.Items} (hs : skip s = '[' :: rest)
    (hrest : (skip rest).head? ≠ some ']') (hitems : takeItems fuel rest = (items, r)) :
    takeValue (fuel + 1) s = (.array items, r) := by
  simp only [takeValue, hs]
  split
  next heq =>
    rw [heq] at hrest
    exact absurd rfl hrest
  next => rw [hitems]

theorem takeValue_emptyObject (hs : skip s = '\x7b' :: rest) (hrest : skip rest = '\x7d' :: r) :
    takeValue (fuel + 1) s = (.object .close, r) := by
  simp [hs, hrest]

theorem takeValue_object {members : Outline.Members} (hs : skip s = '\x7b' :: rest)
    (hrest : (skip rest).head? ≠ some '\x7d') (hmembers : takeMembers fuel rest = (members, r)) :
    takeValue (fuel + 1) s = (.object members, r) := by
  simp only [takeValue, hs]
  split
  next heq =>
    rw [heq] at hrest
    exact absurd rfl hrest
  next => rw [hmembers]

theorem takeValue_string {body : Spelled} (hs : skip s = '"' :: rest)
    (hbody : takeString? rest = some (body, r)) : takeValue (fuel + 1) s = (.string body, r) := by
  simp [hs, hbody]

theorem takeValue_negative {spelling : Number.Spelling} (hs : skip s = '-' :: rest)
    (hnumber : takeNumber? true rest = some (spelling, r)) :
    takeValue (fuel + 1) s = (.number spelling, r) := by
  simp [hs, hnumber]

theorem takeValue_number {c : Char} {spelling : Number.Spelling} (hs : skip s = c :: rest)
    (hc : digit? c ≠ none) (hnumber : takeNumber? false (c :: rest) = some (spelling, r)) :
    takeValue (fuel + 1) s = (.number spelling, r) := by
  have hne {c' : Char} {rest' : List Char} (hc' : digit? c' = none) : skip s ≠ c' :: rest' := by
    intro heq
    rw [hs] at heq
    cases heq
    exact hc hc'
  rw [takeValue]
  split
  next heq => exact absurd heq (hne (by decide))
  next heq => exact absurd heq (hne (by decide))
  next heq => exact absurd heq (hne (by decide))
  next heq => exact absurd heq (hne (by decide))
  next heq => exact absurd heq (hne (by decide))
  next heq => exact absurd heq (hne (by decide))
  next heq => exact absurd heq (hne (by decide))
  next => rw [hs, hnumber]

theorem takeItems_last {value : Outline} {after : List Char}
    (hvalue : takeValue fuel s = (value, after)) (hafter : skip after = ']' :: r) :
    takeItems (fuel + 1) s = (.item (textBefore (skip s) after) value .close, r) := by
  simp [hvalue, hafter]

theorem takeItems_item {value : Outline} {items : Outline.Items} {after : List Char}
    (hvalue : takeValue fuel s = (value, after)) (hafter : skip after = ',' :: rest)
    (hitems : takeItems fuel rest = (items, r)) :
    takeItems (fuel + 1) s = (.item (textBefore (skip s) after) value items, r) := by
  simp [hvalue, hafter, hitems]

variable {key : Spelled} {value : Outline} {after middle after' : List Char}

theorem takeMembers_last (hs : skip s = '"' :: rest) (hkey : takeString? rest = some (key, after))
    (hafter : skip after = ':' :: middle) (hvalue : takeValue fuel middle = (value, after'))
    (hafter' : skip after' = '\x7d' :: r) :
    takeMembers (fuel + 1) s = (.member key value .close, r) := by
  simp [hs, hkey, hafter, hvalue, hafter']

theorem takeMembers_member {members : Outline.Members} {rest' : List Char}
    (hs : skip s = '"' :: rest) (hkey : takeString? rest = some (key, after))
    (hafter : skip after = ':' :: middle) (hvalue : takeValue fuel middle = (value, after'))
    (hafter' : skip after' = ',' :: rest') (hmembers : takeMembers fuel rest' = (members, r)) :
    takeMembers (fuel + 1) s = (.member key value members, r) := by
  simp [hs, hkey, hafter, hvalue, hafter', hmembers]

end

-- A value begins with a character that is neither white space nor the end of an array.
theorem Spells.head {p : List Char} {value : Outline} (h : Spells p value) :
    ∃ c q, p = c :: q ∧ isJsonBlank c = false ∧ c ≠ ']' := by
  cases h with
  | number h =>
    obtain ⟨c, q, rfl, hc⟩ := exists_digit h
    refine ⟨c, q, rfl, isJsonBlank_of_digit hc, ?_⟩
    rintro rfl
    exact hc (by decide)
  | _ => exact ⟨_, _, rfl, by decide, by decide⟩

theorem SpellsItems.head {p : List Char} {items : Outline.Items} (h : SpellsItems p items)
    (r : List Char) : (skip (p ++ r)).head? ≠ some ']' := by
  have hvalue {b p : List Char} {value : Outline} (rest : List Char) (hb : Blank b)
      (h : Spells p value) : (skip (b ++ (p ++ rest))).head? ≠ some ']' := by
    obtain ⟨c, q, rfl, hc, hne⟩ := h.head
    rw [List.cons_append, skip_to hb hc]
    exact fun heq => hne (Option.some.inj heq)
  cases h with
  | last hb h hc =>
    rw [List.append_assoc, List.append_assoc]
    exact hvalue _ hb h
  | item hb h hc hrest =>
    rw [List.append_assoc, List.append_assoc]
    exact hvalue _ hb h

theorem SpellsMembers.head {p : List Char} {members : Outline.Members} (h : SpellsMembers p members)
    (r : List Char) : (skip (p ++ r)).head? ≠ some '\x7d' := by
  have hquote {a : List Char} (rest : List Char) (ha : Blank a) :
      (skip (a ++ '"' :: rest)).head? ≠ some '\x7d' := by
    rw [skip_to ha (by decide)]
    exact fun heq => by cases heq
  cases h with
  | last ha =>
    rw [List.append_assoc]
    exact hquote _ ha
  | member ha =>
    rw [List.append_assoc]
    exact hquote _ ha

/-- What is spelled at the front of a text is taken off it with some fuel.  A value may stand after
white space, and before what would not go on with a number. -/
structure Taken (fuel : Nat) : Prop where
  value : ∀ {p b r value}, Spells p value → 2 * p.length ≤ fuel → Blank b → Stops r →
    takeValue fuel (b ++ (p ++ r)) = (value, r)
  items : ∀ {p r items}, SpellsItems p items → 2 * p.length ≤ fuel →
    takeItems fuel (p ++ r) = (items, r)
  members : ∀ {p r members}, SpellsMembers p members → 2 * p.length ≤ fuel →
    takeMembers fuel (p ++ r) = (members, r)

theorem Taken.value_succ (ih : Taken fuel) {p b r : List Char} {value : Outline}
    (h : Spells p value) (hfuel : 2 * p.length ≤ fuel + 1) (hb : Blank b) (hr : Stops r) :
    takeValue (fuel + 1) (b ++ (p ++ r)) = (value, r) := by
  cases h with
  | null => exact takeValue_null (skip_to hb (by decide) _)
  | yes => exact takeValue_true (skip_to hb (by decide) _)
  | no => exact takeValue_false (skip_to hb (by decide) _)
  | number h =>
    obtain ⟨c, q, rfl, hc⟩ := exists_digit h
    exact takeValue_number (skip_to hb (isJsonBlank_of_digit hc) _) hc (takeNumber?_append h hr)
  | negative h => exact takeValue_negative (skip_to hb (by decide) _) (takeNumber?_append h hr)
  | string h => exact takeValue_string (skip_to hb (by decide) _) (takeString?_append h r)
  | emptyArray hb' =>
    refine takeValue_emptyArray (skip_to hb (by decide) _) ?_
    exact (congrArg skip (List.append_assoc _ _ r)).trans (skip_to hb' (by decide) r)
  | array h =>
    rw [List.length_cons] at hfuel
    exact takeValue_array (skip_to hb (by decide) _) (h.head r) (ih.items h (by omega))
  | emptyObject hb' =>
    refine takeValue_emptyObject (skip_to hb (by decide) _) ?_
    exact (congrArg skip (List.append_assoc _ _ r)).trans (skip_to hb' (by decide) r)
  | object h =>
    rw [List.length_cons] at hfuel
    exact takeValue_object (skip_to hb (by decide) _) (h.head r) (ih.members h (by omega))

-- The text of an item is what spells it, without the white space around it.
theorem textBefore_item {b p : List Char} {value : Outline} (hb : Blank b) (h : Spells p value)
    (after : List Char) : textBefore (skip (b ++ (p ++ after))) after = p := by
  obtain ⟨c, q, rfl, hc, -⟩ := h.head
  rw [List.cons_append, skip_to hb hc, ← List.cons_append, textBefore_append]

theorem Taken.items_succ (ih : Taken fuel) {p r : List Char} {items : Outline.Items}
    (h : SpellsItems p items) (hfuel : 2 * p.length ≤ fuel + 1) :
    takeItems (fuel + 1) (p ++ r) = (items, r) := by
  cases h with
  | @last b p c value hb h hc =>
    simp only [List.length_append, List.length_cons, List.length_nil] at hfuel
    have hstops := stops_blank r hc (d := ']') (by decide)
    have hlast := takeItems_last (ih.value h (by omega) hb hstops) (skip_to hc (by decide) r)
    rw [textBefore_item hb h] at hlast
    simpa using hlast
  | @item b p c rest value items hb h hc hrest =>
    simp only [List.length_append, List.length_cons] at hfuel
    have hstops := stops_blank (rest ++ r) hc (d := ',') (by decide)
    have hitem := takeItems_item (ih.value h (by omega) hb hstops) (skip_to hc (by decide) _)
      (ih.items hrest (by omega))
    rw [textBefore_item hb h] at hitem
    simpa using hitem

theorem Taken.members_succ (ih : Taken fuel) {p r : List Char} {members : Outline.Members}
    (h : SpellsMembers p members) (hfuel : 2 * p.length ≤ fuel + 1) :
    takeMembers (fuel + 1) (p ++ r) = (members, r) := by
  cases h with
  | @last a k a' b p c key value ha hkey ha' hb h hc =>
    simp only [List.length_append, List.length_cons, List.length_nil] at hfuel
    have hstops := stops_blank r hc (d := '\x7d') (by decide)
    have hlast := takeMembers_last (skip_to ha (by decide) _) (takeString?_append hkey _)
      (skip_to ha' (by decide) _) (ih.value h (by omega) hb hstops) (skip_to hc (by decide) r)
    simpa using hlast
  | @member a k a' b p c rest key value members ha hkey ha' hb h hc hrest =>
    simp only [List.length_append, List.length_cons] at hfuel
    have hstops := stops_blank (rest ++ r) hc (d := ',') (by decide)
    have hmember := takeMembers_member (skip_to ha (by decide) _) (takeString?_append hkey _)
      (skip_to ha' (by decide) _) (ih.value h (by omega) hb hstops) (skip_to hc (by decide) _)
      (ih.members hrest (by omega))
    simpa using hmember

theorem taken (fuel : Nat) : Taken fuel := by
  induction fuel with
  | zero =>
    refine ⟨fun h hfuel => ?_, fun h hfuel => ?_, fun h hfuel => ?_⟩
    · obtain ⟨c, q, rfl, -⟩ := h.head
      simp at hfuel
    · cases h <;> simp at hfuel
    · cases h <;> simp at hfuel
  | succ fuel ih => exact ⟨ih.value_succ, ih.items_succ, ih.members_succ⟩

/-! ## 4. Whole texts -/

/-- A whole text that is one value, with white space around it. -/
theorem exists_spells {s : List Char} (hcomplete : (ofChars s).value.isComplete = true) :
    ∃ b p r, Blank b ∧ s = b ++ (p ++ r) ∧ Spells p (ofChars s).value := by
  obtain ⟨b, hb, hs⟩ := exists_blank s
  obtain ⟨p, hp, hspells⟩ := (spelt (2 * s.length + 1)).value s _ _ rfl hcomplete
  rw [hp] at hs
  exact ⟨b, p, _, hb, hs, hspells⟩

/-- What spells a value is a whole text with the outline of that value. -/
theorem ofChars_of_spells {p : List Char} {value : Outline} (h : Spells p value) :
    ofChars p = ⟨value, true⟩ := by
  have htaken := (taken (2 * p.length + 1)).value (b := []) h (Nat.le_succ _)
    (fun c hc => by cases hc) stops_nil
  rw [List.nil_append, List.append_nil] at htaken
  rw [ofChars, htaken]
  rfl

end RowStream.Json.Outline
