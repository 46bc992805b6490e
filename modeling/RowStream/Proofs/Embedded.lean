import RowStream.Json.Tree
import RowStream.Proofs.Grammar
import RowStream.Proofs.Parts

/-!
# Values of spelled texts

The value of a text is that of what is spelled in it.  It does not depend on what the text stands
in: how deep the outline is nested, and how deep texts are embedded in one another, count only
against the limits.
-/

namespace RowStream.Json

open Outline

/-! ## 1. Strings -/

theorem Spelled.length_chars? {body : Spelled} {cs : List Char}
    (h : Spelled.chars? body = some cs) :
    cs.length ≤ body.length := by
  fun_induction Spelled.chars? body generalizing cs with
  | case1 =>
    cases h
    exact Nat.le_refl 0
  | case2 c rest ih | case7 c rest _ _ ih =>
    obtain ⟨cs, hrest, rfl⟩ := Option.map_eq_some_iff.mp h
    exact Nat.succ_le_succ (ih hrest)
  | case3 code _ low rest _ ih =>
    obtain ⟨cs, hrest, rfl⟩ := Option.map_eq_some_iff.mp h
    exact Nat.succ_le_succ (Nat.le_succ_of_le (ih hrest))
  | case4 | case5 | case6 => cases h

theorem Spelled.length_read {body : Spelled} {s : String} (h : Spelled.read body = .ok s) :
    s.length ≤ body.length := by
  unfold Spelled.read at h
  split at h
  next cs hcs =>
    cases h
    rw [String.length_ofList]
    exact Spelled.length_chars? hcs
  next => cases h

theorem Outline.reject_ne_ok {α : Type} (outline : Outline) (expected : String) (a : α) :
    outline.reject expected ≠ .ok a := by
  intro h
  obtain ⟨found, -, h⟩ := bind_eq_ok_iff.mp h
  cases h

theorem Outline.readEmbedded_eq_ok {outline : Outline} {s : String}
    (h : outline.readEmbedded = .ok s) :
    ∃ body, outline = .string body ∧ Spelled.read body = .ok s := by
  cases outline with
  | string body => exact ⟨body, rfl, h⟩
  | _ => exact absurd h (reject_ne_ok _ _ s)

theorem Outline.Members.finish_eq_ok {members : Outline.Members} (h : members.finish = .ok ()) :
    members = .close := by
  cases members with
  | close => rfl
  | _ => cases h

/-! ## 2. Values are of complete outlines -/

-- The two ways to read an object: as the text embedded in it, or member by member.
theorem ofObject_eq_ok {embedded : String → Except Fault Json} {key : Spelled} {value : Outline}
    {rest : Outline.Members} {depth : Nat} {v : Json}
    (h : ofObject embedded (.member key value rest) depth = .ok v) :
    (∃ body s, Spelled.read key = .ok embeddedKey ∧ value = .string body ∧
      Spelled.read body = .ok s ∧ embedded s = .ok v ∧ rest = .close) ∨
    ∃ name first members, Spelled.read key = .ok name ∧ name ≠ embeddedKey ∧
      ofOutline embedded value depth = .ok first ∧ ofMembers embedded rest depth = .ok members ∧
      v = .object (Members.ofList ((name, first) :: members)) := by
  rw [ofObject] at h
  obtain ⟨name, hname, h⟩ := bind_eq_ok_iff.mp h
  split at h
  next hkey =>
    obtain ⟨s, hs, h⟩ := bind_eq_ok_iff.mp h
    obtain ⟨v', hv, h⟩ := bind_eq_ok_iff.mp h
    obtain ⟨_, hfinish, h⟩ := bind_eq_ok_iff.mp h
    cases h
    obtain ⟨body, hvalue, hbody⟩ := readEmbedded_eq_ok hs
    exact .inl ⟨body, s, hkey ▸ hname, hvalue, hbody, hv, Outline.Members.finish_eq_ok hfinish⟩
  next hkey =>
    obtain ⟨first, hfirst, h⟩ := bind_eq_ok_iff.mp h
    obtain ⟨members, hmembers, h⟩ := bind_eq_ok_iff.mp h
    cases h
    exact .inr ⟨name, first, members, hname, hkey, hfirst, hmembers, rfl⟩

section

variable {embedded : String → Except Fault Json}

mutual

theorem complete_of_ofOutline : ∀ (outline : Outline) {depth : Nat} {v : Json},
    ofOutline embedded outline depth = .ok v → outline.isComplete = true
  | .broken, _, _, h => by cases h
  | .null, _, _, _ | .bool _, _, _, _ | .number _, _, _, _ | .string _, _, _, _ => rfl
  | .array _, 0, _, h | .object _, 0, _, h => by cases h
  | .array items, depth + 1, v, h => by
    rw [ofOutline] at h
    obtain ⟨values, hvalues, -⟩ := bind_eq_ok_iff.mp h
    exact complete_of_ofItems items hvalues
  | .object .broken, depth + 1, v, h => by cases h
  | .object .close, depth + 1, v, h => rfl
  | .object (.member key value rest), depth + 1, v, h => by
    rw [ofOutline] at h
    rw [Outline.isComplete, Outline.Members.isComplete, Bool.and_eq_true]
    rcases ofObject_eq_ok h with ⟨body, s, -, rfl, -, -, rfl⟩ |
      ⟨name, first, members, -, -, hfirst, hmembers, -⟩
    · exact ⟨rfl, rfl⟩
    · exact ⟨complete_of_ofOutline value hfirst, complete_of_ofMembers rest hmembers⟩

theorem complete_of_ofItems : ∀ (items : Outline.Items) {depth : Nat} {values : List Json},
    ofItems embedded items depth = .ok values → items.isComplete = true
  | .broken, _, _, h => by cases h
  | .close, _, _, _ => rfl
  | .item text value rest, depth, values, h => by
    rw [ofItems] at h
    obtain ⟨first, hfirst, h⟩ := bind_eq_ok_iff.mp h
    obtain ⟨values, hvalues, -⟩ := bind_eq_ok_iff.mp h
    rw [Outline.Items.isComplete, Bool.and_eq_true]
    exact ⟨complete_of_ofOutline value hfirst, complete_of_ofItems rest hvalues⟩

theorem complete_of_ofMembers : ∀ (members : Outline.Members) {depth : Nat}
    {values : List (String × Json)}, ofMembers embedded members depth = .ok values →
      members.isComplete = true
  | .broken, _, _, h => by cases h
  | .close, _, _, _ => rfl
  | .member key value rest, depth, values, h => by
    rw [ofMembers] at h
    obtain ⟨name, -, h⟩ := bind_eq_ok_iff.mp h
    obtain ⟨first, hfirst, h⟩ := bind_eq_ok_iff.mp h
    obtain ⟨values, hvalues, -⟩ := bind_eq_ok_iff.mp h
    rw [Outline.Members.isComplete, Bool.and_eq_true]
    exact ⟨complete_of_ofOutline value hfirst, complete_of_ofMembers rest hvalues⟩

end

end

/-! ## 3. Values do not depend on the limits -/

-- A string is shorter than what spells it.
theorem length_of_spells {p : List Char} {body : Spelled} {s : String}
    (hp : Spells p (.string body)) (hs : Spelled.read body = .ok s) : s.length < p.length := by
  cases hp with
  | string h =>
    obtain ⟨q, rfl, hlength, -⟩ := closes _ body [] h
    have hread := Spelled.length_read hs
    rw [List.append_nil, List.length_cons]
    omega

section

variable {embedded embedded' : String → Except Fault Json} {n : Nat}

mutual

/-- The value of what is spelled stays the same when more nesting is allowed and the shorter texts
have the same values. -/
theorem ofOutline_mono (hsub : ∀ s v, s.length < n → embedded s = .ok v → embedded' s = .ok v) :
    ∀ (outline : Outline) {p : List Char}, Spells p outline → p.length ≤ n →
      ∀ {depth depth' : Nat} {v : Json}, depth ≤ depth' →
        ofOutline embedded outline depth = .ok v → ofOutline embedded' outline depth' = .ok v
  | .broken, _, _, _, _, _, _, _, h => by cases h
  | .null, _, _, _, _, _, _, _, h | .bool _, _, _, _, _, _, _, _, h => h
  | .number _, _, _, _, _, _, _, _, h | .string _, _, _, _, _, _, _, _, h => by
    rw [ofOutline] at h ⊢
    exact h
  | .array _, _, _, _, 0, _, _, _, h | .object _, _, _, _, 0, _, _, _, h => by cases h
  | .array items, p, hp, hn, depth + 1, depth' + 1, v, hdepth, h => by
    rw [ofOutline] at h ⊢
    obtain ⟨values, hvalues, h⟩ := bind_eq_ok_iff.mp h
    have hitems : ofItems embedded' items depth' = .ok values := by
      cases hp with
      | emptyArray => exact hvalues
      | array hp =>
        exact ofItems_mono hsub items hp (Nat.le_of_succ_le hn)
          (Nat.le_of_succ_le_succ hdepth) hvalues
    exact bind_eq_ok_iff.mpr ⟨values, hitems, h⟩
  | .object .broken, _, _, _, _ + 1, _ + 1, _, _, h => by cases h
  | .object .close, _, _, _, _ + 1, _ + 1, _, _, h => h
  | .object (.member key value rest), p, hp, hn, depth + 1, depth' + 1, v, hdepth, h => by
    cases hp with
    | @object p _ hp =>
      rw [List.length_cons] at hn
      obtain ⟨text, htext, hlength, hrest⟩ := hp.first
      rw [ofOutline] at h ⊢
      rw [ofObject]
      rcases ofObject_eq_ok h with ⟨body, s, hname, rfl, hbody, hs, rfl⟩ |
        ⟨name, first, members, hname, hkey, hfirst, hmembers, rfl⟩
      · have hshort := length_of_spells htext hbody
        refine bind_eq_ok_iff.mpr ⟨_, hname, ?_⟩
        rw [if_pos rfl]
        refine bind_eq_ok_iff.mpr ⟨s, hbody, ?_⟩
        exact bind_eq_ok_iff.mpr ⟨v, hsub s v (by omega) hs, rfl⟩
      · refine bind_eq_ok_iff.mpr ⟨_, hname, ?_⟩
        rw [if_neg hkey]
        have hfirst' := ofOutline_mono hsub value htext (by omega)
          (Nat.le_of_succ_le_succ hdepth) hfirst
        have hmembers' : ofMembers embedded' rest depth' = .ok members := by
          rcases hrest with rfl | ⟨q, hq, hlength⟩
          · exact hmembers
          · exact ofMembers_mono hsub rest hq (by omega) (Nat.le_of_succ_le_succ hdepth) hmembers
        exact bind_eq_ok_iff.mpr ⟨first, hfirst', bind_eq_ok_iff.mpr ⟨members, hmembers', rfl⟩⟩

theorem ofItems_mono (hsub : ∀ s v, s.length < n → embedded s = .ok v → embedded' s = .ok v) :
    ∀ (items : Outline.Items) {p : List Char}, SpellsItems p items → p.length ≤ n →
      ∀ {depth depth' : Nat} {values : List Json}, depth ≤ depth' →
        ofItems embedded items depth = .ok values → ofItems embedded' items depth' = .ok values
  | .broken, _, _, _, _, _, _, _, h => by cases h
  | .close, _, _, _, _, _, _, _, h => h
  | .item text value rest, p, hp, hn, depth, depth', values, hdepth, h => by
    obtain ⟨htext, hlength, hrest⟩ := hp.first
    rw [ofItems] at h ⊢
    obtain ⟨first, hfirst, h⟩ := bind_eq_ok_iff.mp h
    obtain ⟨others, hothers, h⟩ := bind_eq_ok_iff.mp h
    have hfirst' := ofOutline_mono hsub value htext (by omega) hdepth hfirst
    have hothers' : ofItems embedded' rest depth' = .ok others := by
      rcases hrest with rfl | ⟨q, hq, hlength⟩
      · exact hothers
      · exact ofItems_mono hsub rest hq (by omega) hdepth hothers
    exact bind_eq_ok_iff.mpr ⟨first, hfirst', bind_eq_ok_iff.mpr ⟨others, hothers', h⟩⟩

theorem ofMembers_mono (hsub : ∀ s v, s.length < n → embedded s = .ok v → embedded' s = .ok v) :
    ∀ (members : Outline.Members) {p : List Char}, SpellsMembers p members → p.length ≤ n →
      ∀ {depth depth' : Nat} {values : List (String × Json)}, depth ≤ depth' →
        ofMembers embedded members depth = .ok values →
          ofMembers embedded' members depth' = .ok values
  | .broken, _, _, _, _, _, _, _, h => by cases h
  | .close, _, _, _, _, _, _, _, h => h
  | .member key value rest, p, hp, hn, depth, depth', values, hdepth, h => by
    obtain ⟨text, htext, hlength, hrest⟩ := hp.first
    rw [ofMembers] at h ⊢
    obtain ⟨name, hname, h⟩ := bind_eq_ok_iff.mp h
    obtain ⟨first, hfirst, h⟩ := bind_eq_ok_iff.mp h
    obtain ⟨others, hothers, h⟩ := bind_eq_ok_iff.mp h
    have hfirst' := ofOutline_mono hsub value htext (by omega) hdepth hfirst
    have hothers' : ofMembers embedded' rest depth' = .ok others := by
      rcases hrest with rfl | ⟨q, hq, hlength⟩
      · exact hothers
      · exact ofMembers_mono hsub rest hq (by omega) hdepth hothers
    refine bind_eq_ok_iff.mpr ⟨name, hname, bind_eq_ok_iff.mpr ⟨first, hfirst', ?_⟩⟩
    exact bind_eq_ok_iff.mpr ⟨others, hothers', h⟩

end

end

/-! ## 4. Texts -/

theorem readText_eq_ok_iff {α : Type} {read : Outline → Except Fault α} {text : String} {a : α} :
    readText read text = .ok a ↔
      read (Outline.ofText text).value = .ok a ∧ (Outline.ofText text).ended = true := by
  rw [readText, bind_eq_ok_iff]
  constructor
  · rintro ⟨a', hread, h⟩
    split at h
    next hended =>
      cases h
      exact ⟨hread, hended⟩
    next => cases h
  · rintro ⟨hread, hended⟩
    refine ⟨a, hread, ?_⟩
    rw [if_pos hended]
    rfl

-- The text of a value spells the value, and more than nothing.
theorem spells_of_ofOutline {embedded : String → Except Fault Json} {text : String} {depth : Nat}
    {v : Json} (h : ofOutline embedded (Outline.ofText text).value depth = .ok v) :
    ∃ p, Spells p (Outline.ofText text).value ∧ 0 < p.length ∧ p.length ≤ text.length := by
  obtain ⟨b, p, r, -, htext, hp⟩ := exists_spells (complete_of_ofOutline _ h)
  obtain ⟨c, q, rfl, -⟩ := hp.head
  refine ⟨c :: q, hp, Nat.succ_pos _, ?_⟩
  rw [← String.length_toList, htext]
  simp only [List.length_append]
  omega

theorem parseWithin_succ {m : Nat} {text : String} {v : Json} (h : parseWithin m text = .ok v) :
    parseWithin (m + 1) text = .ok v := by
  induction m generalizing text v with
  | zero => cases h
  | succ m ih =>
    obtain ⟨hvalue, hended⟩ := readText_eq_ok_iff.mp h
    obtain ⟨p, hp, -⟩ := spells_of_ofOutline hvalue
    exact readText_eq_ok_iff.mpr
      ⟨ofOutline_mono (fun s v _ => ih) _ hp (Nat.le_refl _) (Nat.le_refl _) hvalue, hended⟩

theorem parseWithin_mono {m m' : Nat} {text : String} {v : Json} (hm : m ≤ m')
    (h : parseWithin m text = .ok v) : parseWithin m' text = .ok v := by
  induction hm with
  | refl => exact h
  | step _ ih => exact parseWithin_succ ih

-- The texts embedded in a text are shorter than what spells its value, and so than the text.
theorem parse_of_parseWithin {m : Nat} {text : String} {v : Json} (h : parseWithin m text = .ok v) :
    parse text = .ok v := by
  induction m generalizing text v with
  | zero => cases h
  | succ m ih =>
    obtain ⟨hvalue, hended⟩ := readText_eq_ok_iff.mp h
    obtain ⟨p, hp, hpos, hlength⟩ := spells_of_ofOutline hvalue
    obtain ⟨k, hk⟩ : ∃ k, text.length = k + 1 := ⟨text.length - 1, by omega⟩
    rw [parse, hk]
    refine readText_eq_ok_iff.mpr ⟨ofOutline_mono (fun s v hs hv => ?_) _ hp (Nat.le_refl _)
      (Nat.le_refl _) hvalue, hended⟩
    exact parseWithin_mono (by omega) (ih hv)

/-- The value of a text is that of its outline, with embedded texts read by themselves. -/
theorem parse_eq_ok_iff {text : String} {v : Json} : parse text = .ok v ↔
    ofOutline parse (Outline.ofText text).value nestingLimit = .ok v ∧
      (Outline.ofText text).ended = true := by
  constructor
  · intro h
    cases hlength : text.length with
    | zero =>
      rw [parse, hlength] at h
      cases h
    | succ k =>
      rw [parse, hlength] at h
      obtain ⟨hvalue, hended⟩ := readText_eq_ok_iff.mp h
      obtain ⟨p, hp, -⟩ := spells_of_ofOutline hvalue
      exact ⟨ofOutline_mono (fun _ _ _ => parse_of_parseWithin) _ hp (Nat.le_refl _) (Nat.le_refl _)
        hvalue, hended⟩
  · rintro ⟨hvalue, hended⟩
    obtain ⟨p, hp, hpos, hlength⟩ := spells_of_ofOutline hvalue
    obtain ⟨k, hk⟩ : ∃ k, text.length = k + 1 := ⟨text.length - 1, by omega⟩
    rw [parse, hk]
    refine readText_eq_ok_iff.mpr ⟨ofOutline_mono (fun s v hs hv => ?_) _ hp (Nat.le_refl _)
      (Nat.le_refl _) hvalue, hended⟩
    exact parseWithin_mono (by omega) hv

/-- What spells a value is a text of that value, wherever it stood and however deep. -/
theorem parse_of_spells {p : List Char} {outline : Outline} {depth : Nat} {v : Json}
    (hp : Spells p outline) (hdepth : depth ≤ nestingLimit)
    (h : ofOutline parse outline depth = .ok v) : parse (String.ofList p) = .ok v := by
  have hdocument : Outline.ofText (String.ofList p) = ⟨outline, true⟩ := by
    rw [Outline.ofText, String.toList_ofList, ofChars_of_spells hp]
  rw [parse_eq_ok_iff, hdocument]
  exact ⟨ofOutline_mono (fun _ _ _ h => h) _ hp (Nat.le_refl _) hdepth h, rfl⟩

end RowStream.Json
