import RowStream.Proofs.Parts

/-!
# Texts of byte strings

The grammar of padded Base64 says how the bits of a text are those of its bytes.  Main statement:
the texts that are read are those of the grammar, which are those that are written, so a byte string
and its text determine each other.
-/

namespace RowStream

namespace Base64

-- Powers here are those of the core library, as in the definitions.
attribute [local instance (high)] instPowNat

/-! ## 1. The grammar -/

/-- The symbols, each at the place that is its value. -/
def alphabet : List UInt8 :=
  "ABCDEFGHIJKLMNOPQRSTUVWXYZabcdefghijklmnopqrstuvwxyz0123456789+/".toUTF8.data.toList

/-- What byte string a text spells: four symbols stand for three bytes, the same bits read as one
number.  One or two bytes at the end are filled up with zero bits to whole symbols, and these with
padding to a whole group. -/
inductive Spells : List UInt8 → List UInt8 → Prop
  | nil : Spells [] []
  | one {w x a : UInt8} {i j : Nat} (hw : alphabet[i]? = some w) (hx : alphabet[j]? = some x)
    (hbits : i * 64 + j = a.toNat * 16) : Spells [w, x, padding, padding] [a]
  | two {w x y a b : UInt8} {i j k : Nat} (hw : alphabet[i]? = some w)
    (hx : alphabet[j]? = some x) (hy : alphabet[k]? = some y)
    (hbits : (i * 64 + j) * 64 + k = (a.toNat * 256 + b.toNat) * 4) :
    Spells [w, x, y, padding] [a, b]
  | more {w x y z a b c : UInt8} {i j k l : Nat} {text bytes : List UInt8}
    (hw : alphabet[i]? = some w) (hx : alphabet[j]? = some x) (hy : alphabet[k]? = some y)
    (hz : alphabet[l]? = some z)
    (hbits : ((i * 64 + j) * 64 + k) * 64 + l = (a.toNat * 256 + b.toNat) * 256 + c.toNat)
    (hrest : Spells text bytes) : Spells (w :: x :: y :: z :: text) (a :: b :: c :: bytes)

theorem alphabet_symbol : ∀ v < 64, alphabet[v]? = some (symbol v) := by decide +kernel

theorem alphabet_eq_some_iff {v : Nat} {b : UInt8} :
    alphabet[v]? = some b ↔ v < 64 ∧ b = symbol v := by
  constructor
  · intro h
    obtain ⟨hv, -⟩ := List.getElem?_eq_some_iff.mp h
    have hlength : alphabet.length = 64 := by decide +kernel
    rw [hlength] at hv
    rw [alphabet_symbol v hv] at h
    exact ⟨hv, (Option.some.inj h).symm⟩
  · rintro ⟨hv, rfl⟩
    exact alphabet_symbol v hv

/-! ## 2. Writing -/

-- The cases are those of writing.
theorem spells_encodeBytes (bytes : List UInt8) : Spells (encodeBytes bytes) bytes := by
  induction bytes using encodeBytes.induct with
  | case1 => exact .nil
  | case2 a =>
    have ha := a.toNat_lt
    refine .one (alphabet_symbol _ ?_) (alphabet_symbol _ ?_) ?_ <;> omega
  | case3 a b =>
    have ha := a.toNat_lt
    have hb := b.toNat_lt
    refine .two (alphabet_symbol _ ?_) (alphabet_symbol _ ?_) (alphabet_symbol _ ?_) ?_ <;> omega
  | case4 a b c rest ih =>
    have ha := a.toNat_lt
    have hb := b.toNat_lt
    have hc := c.toNat_lt
    refine .more (alphabet_symbol _ ?_) (alphabet_symbol _ ?_) (alphabet_symbol _ ?_)
      (alphabet_symbol _ ?_) ?_ ih <;> omega

theorem Spells.eq_encodeBytes {text bytes : List UInt8} (h : Spells text bytes) :
    text = encodeBytes bytes := by
  induction h with
  | nil => rfl
  | @one w x a i j hw hx hbits =>
    obtain ⟨hi, rfl⟩ := alphabet_eq_some_iff.mp hw
    obtain ⟨hj, rfl⟩ := alphabet_eq_some_iff.mp hx
    have hfirst : a.toNat * 16 / 64 = i := by omega
    have hsecond : a.toNat * 16 % 64 = j := by omega
    rw [encodeBytes, hfirst, hsecond]
  | @two w x y a b i j k hw hx hy hbits =>
    obtain ⟨hi, rfl⟩ := alphabet_eq_some_iff.mp hw
    obtain ⟨hj, rfl⟩ := alphabet_eq_some_iff.mp hx
    obtain ⟨hk, rfl⟩ := alphabet_eq_some_iff.mp hy
    have hfirst : (a.toNat * 256 + b.toNat) * 4 / 4096 = i := by omega
    have hsecond : (a.toNat * 256 + b.toNat) * 4 / 64 % 64 = j := by omega
    have hthird : (a.toNat * 256 + b.toNat) * 4 % 64 = k := by omega
    rw [encodeBytes, hfirst, hsecond, hthird]
  | @more w x y z a b c i j k l text bytes hw hx hy hz hbits hrest ih =>
    obtain ⟨hi, rfl⟩ := alphabet_eq_some_iff.mp hw
    obtain ⟨hj, rfl⟩ := alphabet_eq_some_iff.mp hx
    obtain ⟨hk, rfl⟩ := alphabet_eq_some_iff.mp hy
    obtain ⟨hl, rfl⟩ := alphabet_eq_some_iff.mp hz
    have hfirst : ((a.toNat * 256 + b.toNat) * 256 + c.toNat) / 262144 = i := by omega
    have hsecond : ((a.toNat * 256 + b.toNat) * 256 + c.toNat) / 4096 % 64 = j := by omega
    have hthird : ((a.toNat * 256 + b.toNat) * 256 + c.toNat) / 64 % 64 = k := by omega
    have hfourth : ((a.toNat * 256 + b.toNat) * 256 + c.toNat) % 64 = l := by omega
    rw [encodeBytes, hfirst, hsecond, hthird, hfourth, ← ih]

theorem spells_iff_eq_encodeBytes {text bytes : List UInt8} :
    Spells text bytes ↔ text = encodeBytes bytes :=
  ⟨Spells.eq_encodeBytes, fun h => h ▸ spells_encodeBytes bytes⟩

theorem length_encodeBytes (bytes : List UInt8) : (encodeBytes bytes).length % 4 = 0 := by
  induction bytes using encodeBytes.induct with
  | case1 | case2 | case3 => simp [encodeBytes]
  | case4 a b c rest ih =>
    simp only [encodeBytes, List.length_cons]
    omega

/-! ## 3. Reading the last group -/

theorem valueAt_eq_ok_iff {offset v : Nat} {b : UInt8} :
    valueAt offset b = .ok v ↔ alphabet[v]? = some b := by
  rw [alphabet_eq_some_iff]
  unfold valueAt
  constructor
  · intro h
    split at h
    next w hw =>
      cases h
      obtain ⟨hsymbol, hv⟩ := symbol_of_value? hw
      exact ⟨hv, hsymbol.symm⟩
    next => cases h
  · rintro ⟨hv, rfl⟩
    rw [value?_symbol v hv]

theorem ne_padding {v : Nat} {b : UInt8} (h : alphabet[v]? = some b) : b ≠ padding := by
  obtain ⟨hv, rfl⟩ := alphabet_eq_some_iff.mp h
  have hall : ∀ v < 64, symbol v ≠ padding := by decide
  exact hall v hv

theorem lastValues_padding {offset place : Nat} {rest : List UInt8} {values : List Nat}
    (h : lastValues offset place (padding :: rest) = .ok values) :
    2 ≤ place ∧ rest.all (· = padding) = true ∧ values = [] := by
  rw [lastValues, if_pos rfl] at h
  split at h
  next => cases h
  next hplace =>
    split at h
    next hall => cases h; exact ⟨Nat.le_of_not_lt hplace, hall, rfl⟩
    next => cases h

theorem lastValues_symbol {offset place : Nat} {b : UInt8} {rest : List UInt8} {values : List Nat}
    (hb : b ≠ padding) : lastValues offset place (b :: rest) = .ok values ↔
      ∃ v later, alphabet[v]? = some b ∧ lastValues offset (place + 1) rest = .ok later ∧
        values = v :: later := by
  rw [lastValues, if_neg hb, bind_eq_ok_iff]
  constructor
  · rintro ⟨v, hv, h⟩
    obtain ⟨later, hlater, h⟩ := bind_eq_ok_iff.mp h
    cases h
    exact ⟨v, later, valueAt_eq_ok_iff.mp hv, hlater, rfl⟩
  · rintro ⟨v, later, hv, hlater, rfl⟩
    exact ⟨v, valueAt_eq_ok_iff.mpr hv, bind_eq_ok_iff.mpr ⟨later, hlater, rfl⟩⟩

/-- The last group of a text with the values of its symbols. -/
inductive LastGroup : List UInt8 → List Nat → Prop
  | two {w x : UInt8} {i j : Nat} (hw : alphabet[i]? = some w) (hx : alphabet[j]? = some x) :
    LastGroup [w, x, padding, padding] [i, j]
  | three {w x y : UInt8} {i j k : Nat} (hw : alphabet[i]? = some w) (hx : alphabet[j]? = some x)
    (hy : alphabet[k]? = some y) : LastGroup [w, x, y, padding] [i, j, k]
  | four {w x y z : UInt8} {i j k l : Nat} (hw : alphabet[i]? = some w)
    (hx : alphabet[j]? = some x) (hy : alphabet[k]? = some y) (hz : alphabet[l]? = some z) :
    LastGroup [w, x, y, z] [i, j, k, l]

-- Padding has no place before the third, and nothing follows it.
theorem lastGroup_of_lastValues {offset : Nat} {w x y z : UInt8} {values : List Nat}
    (h : lastValues offset 0 [w, x, y, z] = .ok values) : LastGroup [w, x, y, z] values := by
  have hfirst : w ≠ padding := by
    rintro rfl
    exact absurd (lastValues_padding h).1 (by decide)
  obtain ⟨i, later, hw, htail, rfl⟩ := (lastValues_symbol hfirst).mp h
  have hsecond : x ≠ padding := by
    rintro rfl
    exact absurd (lastValues_padding htail).1 (by decide)
  obtain ⟨j, later, hx, hpair, rfl⟩ := (lastValues_symbol hsecond).mp htail
  by_cases hthird : y = padding
  · subst hthird
    obtain ⟨-, hall, rfl⟩ := lastValues_padding hpair
    obtain rfl : z = padding := by simpa using hall
    exact .two hw hx
  · obtain ⟨k, later, hy, hlast, rfl⟩ := (lastValues_symbol hthird).mp hpair
    by_cases hfourth : z = padding
    · subst hfourth
      obtain ⟨-, -, rfl⟩ := lastValues_padding hlast
      exact .three hw hx hy
    · obtain ⟨l, later, hz, hnil, rfl⟩ := (lastValues_symbol hfourth).mp hlast
      cases hnil
      exact .four hw hx hy hz

theorem LastGroup.lastValues_eq {offset : Nat} {group : List UInt8} {values : List Nat}
    (h : LastGroup group values) : lastValues offset 0 group = .ok values := by
  cases h with
  | two hw hx =>
    refine (lastValues_symbol (ne_padding hw)).mpr ⟨_, _, hw, ?_, rfl⟩
    exact (lastValues_symbol (ne_padding hx)).mpr ⟨_, _, hx, rfl, rfl⟩
  | three hw hx hy =>
    refine (lastValues_symbol (ne_padding hw)).mpr ⟨_, _, hw, ?_, rfl⟩
    refine (lastValues_symbol (ne_padding hx)).mpr ⟨_, _, hx, ?_, rfl⟩
    exact (lastValues_symbol (ne_padding hy)).mpr ⟨_, _, hy, rfl, rfl⟩
  | four hw hx hy hz =>
    refine (lastValues_symbol (ne_padding hw)).mpr ⟨_, _, hw, ?_, rfl⟩
    refine (lastValues_symbol (ne_padding hx)).mpr ⟨_, _, hx, ?_, rfl⟩
    refine (lastValues_symbol (ne_padding hy)).mpr ⟨_, _, hy, ?_, rfl⟩
    exact (lastValues_symbol (ne_padding hz)).mpr ⟨_, _, hz, rfl, rfl⟩

theorem lastGroup_of_decodeLast {offset : Nat} {group bytes : List UInt8}
    (h : decodeLast offset group = .ok bytes) : ∃ values, LastGroup group values := by
  unfold decodeLast at h
  obtain ⟨values, hvalues, h⟩ := bind_eq_ok_iff.mp h
  have hlength : group.length = 4 := by
    by_contra hlength
    simp only [if_pos hlength] at h
    split at h <;> cases h
  match group, hlength with
  | [w, x, y, z], _ => exact ⟨values, lastGroup_of_lastValues hvalues⟩

-- What the three forms of a last group come to.
theorem decodeLast_two {offset i j : Nat} {w x : UInt8} (hw : alphabet[i]? = some w)
    (hx : alphabet[j]? = some x) :
    decodeLast offset [w, x, padding, padding] =
      if (i * 64 + j) % 16 = 0 then .ok [UInt8.ofNat ((i * 64 + j) / 16 % 256)]
      else .error (.lastSymbol x (offset + 1)) := by
  simp [decodeLast, (LastGroup.two hw hx).lastValues_eq, bind, Except.bind, pure, Except.pure,
    throw, throwThe, MonadExceptOf.throw]

theorem decodeLast_three {offset i j k : Nat} {w x y : UInt8} (hw : alphabet[i]? = some w)
    (hx : alphabet[j]? = some x) (hy : alphabet[k]? = some y) :
    decodeLast offset [w, x, y, padding] =
      if ((i * 64 + j) * 64 + k) % 4 = 0 then
        .ok [UInt8.ofNat (((i * 64 + j) * 64 + k) / 4 / 256 % 256),
          UInt8.ofNat (((i * 64 + j) * 64 + k) / 4 % 256)]
      else .error (.lastSymbol y (offset + 2)) := by
  simp [decodeLast, (LastGroup.three hw hx hy).lastValues_eq, bind, Except.bind, pure, Except.pure,
    throw, throwThe, MonadExceptOf.throw, List.range_succ]

theorem decodeLast_four {offset i j k l : Nat} {w x y z : UInt8} (hw : alphabet[i]? = some w)
    (hx : alphabet[j]? = some x) (hy : alphabet[k]? = some y) (hz : alphabet[l]? = some z) :
    decodeLast offset [w, x, y, z] =
      .ok [UInt8.ofNat ((((i * 64 + j) * 64 + k) * 64 + l) / 65536 % 256),
        UInt8.ofNat ((((i * 64 + j) * 64 + k) * 64 + l) / 256 % 256),
        UInt8.ofNat ((((i * 64 + j) * 64 + k) * 64 + l) % 256)] := by
  simp [decodeLast, (LastGroup.four hw hx hy hz).lastValues_eq, bind, Except.bind, pure,
    Except.pure, List.range_succ, Nat.mod_one]

/-! ## 4. Reading -/

theorem spells_of_decodeLast {offset : Nat} {group bytes : List UInt8}
    (h : decodeLast offset group = .ok bytes) : Spells group bytes := by
  obtain ⟨values, hgroup⟩ := lastGroup_of_decodeLast h
  cases hgroup with
  | @two w x i j hw hx =>
    rw [decodeLast_two hw hx] at h
    split at h
    next hspare =>
      cases h
      have hi := (alphabet_eq_some_iff.mp hw).1
      have hj := (alphabet_eq_some_iff.mp hx).1
      refine .one hw hx ?_
      simp only [UInt8.toNat_ofNat']
      omega
    next => cases h
  | @three w x y i j k hw hx hy =>
    rw [decodeLast_three hw hx hy] at h
    split at h
    next hspare =>
      cases h
      have hi := (alphabet_eq_some_iff.mp hw).1
      have hj := (alphabet_eq_some_iff.mp hx).1
      have hk := (alphabet_eq_some_iff.mp hy).1
      refine .two hw hx hy ?_
      simp only [UInt8.toNat_ofNat']
      omega
    next => cases h
  | @four w x y z i j k l hw hx hy hz =>
    rw [decodeLast_four hw hx hy hz] at h
    cases h
    have hi := (alphabet_eq_some_iff.mp hw).1
    have hj := (alphabet_eq_some_iff.mp hx).1
    have hk := (alphabet_eq_some_iff.mp hy).1
    have hl := (alphabet_eq_some_iff.mp hz).1
    refine .more hw hx hy hz ?_ .nil
    simp only [UInt8.toNat_ofNat']
    omega

-- The cases are those of reading: no text, a whole group before others, the last group.
theorem spells_of_decodeFrom {offset : Nat} {text bytes : List UInt8}
    (h : decodeFrom offset text = .ok bytes) : Spells text bytes := by
  fun_induction decodeFrom offset text generalizing bytes with
  | case1 => cases h; exact .nil
  | case2 offset w x y z next rest ih =>
    obtain ⟨i, hw, h⟩ := bind_eq_ok_iff.mp h
    obtain ⟨j, hx, h⟩ := bind_eq_ok_iff.mp h
    obtain ⟨k, hy, h⟩ := bind_eq_ok_iff.mp h
    obtain ⟨l, hz, h⟩ := bind_eq_ok_iff.mp h
    obtain ⟨more, hmore, h⟩ := bind_eq_ok_iff.mp h
    cases h
    rw [valueAt_eq_ok_iff] at hw hx hy hz
    have hi := (alphabet_eq_some_iff.mp hw).1
    have hj := (alphabet_eq_some_iff.mp hx).1
    have hk := (alphabet_eq_some_iff.mp hy).1
    have hl := (alphabet_eq_some_iff.mp hz).1
    refine .more hw hx hy hz ?_ (ih hmore)
    simp only [UInt8.toNat_ofNat']
    omega
  | case3 => exact spells_of_decodeLast h

theorem Spells.decodeFrom_eq {text bytes : List UInt8} (h : Spells text bytes) (offset : Nat) :
    decodeFrom offset text = .ok bytes := by
  induction h generalizing offset with
  | nil => rfl
  | @one w x a i j hw hx hbits =>
    have ha := a.toNat_lt
    have hbyte : a.toNat * 16 / 16 % 256 = a.toNat := by omega
    show decodeLast offset _ = _
    rw [decodeLast_two hw hx, hbits, if_pos (Nat.mul_mod_left ..), hbyte, UInt8.ofNat_toNat]
  | @two w x y a b i j k hw hx hy hbits =>
    have ha := a.toNat_lt
    have hb := b.toNat_lt
    have hfirst : (a.toNat * 256 + b.toNat) * 4 / 4 / 256 % 256 = a.toNat := by omega
    have hsecond : (a.toNat * 256 + b.toNat) * 4 / 4 % 256 = b.toNat := by omega
    show decodeLast offset _ = _
    rw [decodeLast_three hw hx hy, hbits, if_pos (Nat.mul_mod_left ..), hfirst, hsecond,
      UInt8.ofNat_toNat, UInt8.ofNat_toNat]
  | @more w x y z a b c i j k l text bytes hw hx hy hz hbits hrest ih =>
    have ha := a.toNat_lt
    have hb := b.toNat_lt
    have hc := c.toNat_lt
    have hfirst : ((a.toNat * 256 + b.toNat) * 256 + c.toNat) / 65536 = a.toNat := by omega
    have hsecond : ((a.toNat * 256 + b.toNat) * 256 + c.toNat) / 256 % 256 = b.toNat := by omega
    have hthird : ((a.toNat * 256 + b.toNat) * 256 + c.toNat) % 256 = c.toNat := by omega
    cases text with
    | nil =>
      -- These four symbols are the last group, and nothing of their number is cut off.
      cases hrest
      show decodeLast offset _ = _
      rw [decodeLast_four hw hx hy hz, hbits, hfirst, Nat.mod_eq_of_lt ha, hsecond, hthird,
        UInt8.ofNat_toNat, UInt8.ofNat_toNat, UInt8.ofNat_toNat]
    | cons next rest =>
      rw [decodeFrom, valueAt_eq_ok_iff.mpr hw, valueAt_eq_ok_iff.mpr hx,
        valueAt_eq_ok_iff.mpr hy, valueAt_eq_ok_iff.mpr hz, ih (offset + 4)]
      simp only [bind, Except.bind, pure, Except.pure, hbits, hfirst, hsecond, hthird,
        UInt8.ofNat_toNat]

theorem decodeBytes_eq_ok_iff {text bytes : List UInt8} :
    decodeBytes text = .ok bytes ↔ Spells text bytes := by
  unfold decodeBytes
  constructor
  · intro h
    split at h
    next last hlast =>
      split at h
      next => cases h
      next => exact spells_of_decodeFrom h
    next hnone =>
      cases h
      rw [List.getLast?_eq_none_iff.mp hnone]
      exact .nil
  · intro h
    split
    next last hlast =>
      -- A foreign byte that stands alone makes a length that no written text has.
      have hlength : text.length % 4 = 0 := h.eq_encodeBytes ▸ length_encodeBytes bytes
      rw [if_neg fun halone => by omega]
      exact h.decodeFrom_eq 0
    next hnone =>
      rw [List.getLast?_eq_none_iff.mp hnone] at h
      cases h
      rfl

/-! ## 5. Texts -/

/-- What byte string a text denotes. -/
def Denotes (text : String) (bytes : List UInt8) : Prop := Spells text.toUTF8.data.toList bytes

theorem ascii_of_alphabet {v : Nat} {b : UInt8} (h : alphabet[v]? = some b) : b.toNat < 128 := by
  obtain ⟨hv, rfl⟩ := alphabet_eq_some_iff.mp h
  have hall : ∀ v < 64, (symbol v).toNat < 128 := by decide
  exact hall v hv

theorem Spells.ascii {text bytes : List UInt8} (h : Spells text bytes) :
    ∀ b ∈ text, b.toNat < 128 := by
  have hpadding : padding.toNat < 128 := by decide
  induction h with
  | nil => exact List.forall_mem_nil _
  | one hw hx =>
    simp only [List.forall_mem_cons]
    exact ⟨ascii_of_alphabet hw, ascii_of_alphabet hx, hpadding, hpadding, List.forall_mem_nil _⟩
  | two hw hx hy =>
    simp only [List.forall_mem_cons]
    exact ⟨ascii_of_alphabet hw, ascii_of_alphabet hx, ascii_of_alphabet hy, hpadding,
      List.forall_mem_nil _⟩
  | more hw hx hy hz _ _ ih =>
    simp only [List.forall_mem_cons]
    exact ⟨ascii_of_alphabet hw, ascii_of_alphabet hx, ascii_of_alphabet hy,
      ascii_of_alphabet hz, ih⟩

theorem utf8_of_ascii {b : UInt8} (h : b.toNat < 128) :
    String.utf8EncodeChar (Char.ofNat b.toNat) = [b] := by
  have hall : ∀ n : Fin 128, String.utf8EncodeChar (Char.ofNat n.val) = [UInt8.ofNat n.val] := by
    decide
  have hb := hall ⟨b.toNat, h⟩
  rwa [UInt8.ofNat_toNat] at hb

theorem utf8_encode (bytes : List UInt8) :
    (encode bytes).toUTF8.data.toList = encodeBytes bytes := by
  rw [encode, String.toUTF8, String.toByteArray_ofList, List.utf8Encode,
    List.toList_data_toByteArray, List.flatMap_map]
  have hascii := (spells_encodeBytes bytes).ascii
  generalize encodeBytes bytes = symbols at hascii ⊢
  induction symbols with
  | nil => rfl
  | cons b symbols ih =>
    rw [List.forall_mem_cons] at hascii
    rw [List.flatMap_cons, utf8_of_ascii hascii.1, ih hascii.2, List.singleton_append]

theorem denotes_iff_eq_encode {text : String} {bytes : List UInt8} :
    Denotes text bytes ↔ text = encode bytes := by
  rw [Denotes, spells_iff_eq_encodeBytes, ← utf8_encode]
  constructor
  · intro h
    exact String.toByteArray_inj.mp (ByteArray.ext (Array.toList_inj.mp h))
  · rintro rfl
    rfl

theorem decode_eq_ok_iff {text : String} {bytes : List UInt8} :
    decode text = .ok bytes ↔ Denotes text bytes := decodeBytes_eq_ok_iff

end Base64

/-! ## 6. Objects -/

namespace Pseudotype

variable {options : Options} {members : List (String × Json)}

theorem normalize_of_text {text : String} (htag : nativeTag? options members = some .binary)
    (hdata : Members.get? "data" members = some (.string text)) :
    normalize options (.object members) =
      match Base64.decode text with
      | .ok bytes => .ok (.binary bytes)
      | .error fault => .error (.invalidBase64 fault) := by
  simp only [normalize, htag, binary, hdata]
  rfl

/-- A natively presented byte string whose data is a text normalizes to a byte string exactly if
that byte string is the text again as JSON, which is exactly if the text denotes it in padded
Base64.  A text that is not accepted is reported, and no other text denotes the same bytes. -/
theorem bytes_correspond_to_texts {text : String}
    (htag : nativeTag? options members = some .binary)
    (hdata : Members.get? "data" members = some (.string text)) :
    (∀ bytes, normalize options (.object members) = .ok (.binary bytes) ↔
      (Datum.binary bytes).toJson = .string text) ∧
    (∀ bytes, normalize options (.object members) = .ok (.binary bytes) ↔
      Base64.Denotes text bytes) ∧
    ((∃ bytes, normalize options (.object members) = .ok (.binary bytes)) ∨
      ∃ fault, normalize options (.object members) = .error (.invalidBase64 fault)) ∧
    ∀ other bytes, Base64.Denotes text bytes → Base64.Denotes other bytes → other = text := by
  have hdecode (bytes : List UInt8) : normalize options (.object members) = .ok (.binary bytes) ↔
      Base64.decode text = .ok bytes := by
    rw [normalize_of_text htag hdata]
    cases Base64.decode text with
    | ok decoded => simp
    | error fault => simp
  refine ⟨fun bytes => ?_, fun bytes => ?_, ?_, fun other bytes htext hother => ?_⟩
  · rw [hdecode, Base64.decode_eq_ok_iff, Base64.denotes_iff_eq_encode, Datum.toJson,
      Json.string.injEq]
    exact eq_comm
  · rw [hdecode, Base64.decode_eq_ok_iff]
  · rw [normalize_of_text htag hdata]
    cases Base64.decode text with
    | ok bytes => exact .inl ⟨bytes, rfl⟩
    | error fault => exact .inr ⟨fault, rfl⟩
  · rw [Base64.denotes_iff_eq_encode] at htext hother
    rw [htext, hother]

/-- Two bytes, whose text is filled up with two zero bits and one byte of padding. -/
theorem bytes_correspond_to_texts_padded :
    let members := [("$reql_type$", Json.string "BINARY"), ("data", .string "AQI=")]
    normalize {} (.object members) = .ok (.binary [1, 2]) ∧
      (Datum.binary [1, 2]).toJson = .string "AQI=" ∧
      ∀ other, Base64.Denotes other [1, 2] → other = "AQI=" := by
  intro members
  have htag : nativeTag? {} members = some .binary := by decide
  have hdata : Members.get? "data" members = some (.string "AQI=") := by rfl
  have hdenotes : Base64.Denotes "AQI=" [1, 2] :=
    .two (i := 0) (j := 16) (k := 8) (by decide +kernel) (by decide +kernel) (by decide +kernel) rfl
  obtain ⟨hjson, htext, -, hone⟩ := bytes_correspond_to_texts htag hdata
  have hnormal := (htext [1, 2]).mpr hdenotes
  exact ⟨hnormal, (hjson [1, 2]).mp hnormal, fun other => hone other [1, 2] hdenotes⟩

end Pseudotype
end RowStream
