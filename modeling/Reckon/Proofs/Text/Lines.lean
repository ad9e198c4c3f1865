import Mathlib.Data.List.DropRight
import Reckon.Text.Blank
import Reckon.Text.Lines

/-!
# Lines and the white space around them

A text is cut at its line feeds, so a line end can be taken off the front of a text together with
the line before it. The bytes of a text are cut where its characters are: a line feed or a carriage
return is one byte, and in UTF-8 no other character has this byte in it.

Results:
* `lines_append`, `lines_of_not_mem`: the lines of a text, from the first to the last.
* `lines_encode`: the lines of the bytes of a text are the bytes of its lines.
* `trim_append`, `trim_withoutReturn`: what white space around a line does not change.
-/

namespace Reckon.Text

/-! ## The lines of a text -/

section Lines

variable {α β : Type} [DecidableEq α] [DecidableEq β] {lineFeed carriageReturn : α}

theorem withoutReturn_append (carriageReturn : α) (line : List α) :
    withoutReturn carriageReturn (line ++ [carriageReturn]) = line := by
  rw [withoutReturn, if_pos List.getLast?_concat, List.dropLast_concat]

theorem withoutReturn_of_getLast? {line : List α} (h : line.getLast? ≠ some carriageReturn) :
    withoutReturn carriageReturn line = line := by
  rw [withoutReturn, if_neg h]

/-- A line and its line feed at the front of a text. -/
theorem lines_append (carriageReturn : α) {line : List α} (h : lineFeed ∉ line) (rest : List α) :
    lines lineFeed carriageReturn (line ++ lineFeed :: rest) =
      withoutReturn carriageReturn line :: lines lineFeed carriageReturn rest := by
  have hsplit : (line ++ lineFeed :: rest).splitOn lineFeed = line :: rest.splitOn lineFeed := by
    rw [List.splitOn_append_cons_of_beq line rest (beq_self_eq_true lineFeed),
      List.splitOn_eq_singleton h, List.singleton_append]
  have hne := List.splitOn_ne_nil lineFeed rest
  rw [lines, hsplit, List.dropLast_cons_of_ne_nil hne, List.getLast?_cons_of_ne_nil hne]
  rfl

/-- A text without line feeds is one line, or none if it is empty. -/
theorem lines_of_not_mem {line : List α} (h : lineFeed ∉ line) :
    lines lineFeed carriageReturn line = [line].filter (· ≠ []) := by
  rw [lines, List.splitOn_eq_singleton h]
  rfl

/-- Among the units of a text the unit `a` is written as `b`, which no other unit has in it. -/
structure Marks (f : α → List β) (a : α) (b : β) : Prop where
  image : f a = [b]
  other : ∀ c, c ≠ a → b ∉ f c

variable {f : α → List β} {lineFeed' carriageReturn' : β}

/-- What stands in front of the first separator belongs to the first piece. -/
theorem splitOn_append_of_not_mem {sep : β} {front : List β} (h : sep ∉ front) (rest : List β) :
    (front ++ rest).splitOn sep = (rest.splitOn sep).modifyHead (front ++ ·) := by
  induction front with
  | nil =>
    rw [List.nil_append]
    cases rest.splitOn sep <;> rfl
  | cons c front ih =>
    obtain ⟨hc, hfront⟩ := List.ne_and_not_mem_of_not_mem_cons h
    have hne : (c == sep) = false := by simpa using Ne.symm hc
    rw [List.cons_append, List.splitOn_cons_eq_if_modifyHead, hne, ih hfront]
    cases rest.splitOn sep <;> rfl

theorem splitOn_flatMap (h : Marks f lineFeed lineFeed') (text : List α) :
    (text.flatMap f).splitOn lineFeed' = (text.splitOn lineFeed).map (·.flatMap f) := by
  induction text with
  | nil => rfl
  | cons c rest ih =>
    rw [List.flatMap_cons, List.splitOn_cons_eq_if_modifyHead]
    by_cases hc : c = lineFeed
    · subst hc
      rw [h.image, List.singleton_append, List.splitOn_cons_eq_if_modifyHead, ih]
      simp
    · rw [splitOn_append_of_not_mem (h.other c hc), ih, if_neg (by simpa using hc)]
      cases rest.splitOn lineFeed <;> rfl

theorem withoutReturn_flatMap (h : Marks f carriageReturn carriageReturn')
    (hne : ∀ c, f c ≠ []) (line : List α) :
    withoutReturn carriageReturn' (line.flatMap f) =
      (withoutReturn carriageReturn line).flatMap f := by
  rcases List.eq_nil_or_concat' line with rfl | ⟨front, c, rfl⟩
  · rfl
  by_cases hc : c = carriageReturn
  · subst hc
    rw [withoutReturn_append, List.flatMap_append, List.flatMap_singleton, h.image,
      withoutReturn_append]
  · have hlast : (front ++ [c]).getLast? ≠ some carriageReturn := by simpa using hc
    rw [withoutReturn_of_getLast? hlast, List.flatMap_append, List.flatMap_singleton]
    refine withoutReturn_of_getLast? fun hbyte => h.other c hc ?_
    rw [List.getLast?_append_of_ne_nil _ (hne c)] at hbyte
    exact List.mem_of_getLast? hbyte

/-- Where line ends are written as line ends, the lines are cut in the same places. -/
theorem lines_flatMap (hlf : Marks f lineFeed lineFeed')
    (hcr : Marks f carriageReturn carriageReturn') (hne : ∀ c, f c ≠ []) (text : List α) :
    lines lineFeed' carriageReturn' (text.flatMap f) =
      (lines lineFeed carriageReturn text).map (·.flatMap f) := by
  have hempty (line : List α) : line.flatMap f = [] ↔ line = [] := by
    rw [List.flatMap_eq_nil_iff]
    refine ⟨fun h => List.eq_nil_iff_forall_not_mem.mpr fun c hc => hne c (h c hc), ?_⟩
    rintro rfl c hc
    cases hc
  simp only [lines, splitOn_flatMap hlf, List.map_append, ← List.map_dropLast, List.map_map,
    List.getLast?_map]
  congr 1
  · exact List.map_congr_left fun line _ => withoutReturn_flatMap hcr hne line
  · cases (text.splitOn lineFeed).getLast? with
    | none => rfl
    | some line => by_cases h : line = [] <;> simp [h, hempty]

end Lines

/-! ## Bytes -/

/-- The bytes of a text. -/
def encode (text : List Char) : List UInt8 := text.flatMap String.utf8EncodeChar

/-- In UTF-8 a byte below 128 stands for the character of this number only. -/
theorem toNat_of_mem_utf8EncodeChar {c : Char} {b : UInt8} (h : b ∈ String.utf8EncodeChar c)
    (hb : b.toNat < 128) : c.toNat = b.toNat := by
  have hlarge (n : Nat) (h₁ : 128 ≤ n) (h₂ : n < 256) : b ≠ UInt8.ofNat n := by
    rintro rfl
    rw [UInt8.toNat_ofNat'] at hb
    omega
  simp only [String.utf8EncodeChar] at h
  split at h
  · rw [List.mem_singleton] at h
    subst h
    rw [UInt8.toNat_ofNat']
    show c.val.toNat = _
    omega
  -- all bytes of a longer encoding have the eighth bit
  exfalso
  have hcontinued (n : Nat) : b ≠ UInt8.ofNat (n % 64 + 128) := hlarge _ (by omega) (by omega)
  split at h
  · simp only [List.mem_cons, List.not_mem_nil, or_false, hcontinued] at h
    exact hlarge _ (by omega) (by omega) h
  split at h
  · simp only [List.mem_cons, List.not_mem_nil, or_false, hcontinued] at h
    exact hlarge _ (by omega) (by omega) h
  · simp only [List.mem_cons, List.not_mem_nil, or_false, hcontinued] at h
    exact hlarge _ (by omega) (by omega) h

theorem marks_lineFeed : Marks String.utf8EncodeChar '\n' 10 where
  image := by decide
  other c hc h := hc (Char.toNat_inj.mp (toNat_of_mem_utf8EncodeChar h (by decide)))

theorem marks_carriageReturn : Marks String.utf8EncodeChar '\r' 13 where
  image := by decide
  other c hc h := hc (Char.toNat_inj.mp (toNat_of_mem_utf8EncodeChar h (by decide)))

/-- The lines of the bytes of a text are the bytes of its lines. -/
theorem lines_encode (text : List Char) :
    lines 10 13 (encode text) = (lines '\n' '\r' text).map encode :=
  lines_flatMap marks_lineFeed marks_carriageReturn (fun _ => String.utf8EncodeChar_ne_nil) text

/-- The units of an array of bytes, read from the place `i` on. -/
theorem byteArray_toList_loop (bytes : ByteArray) (i : Nat) (front : List UInt8) :
    ByteArray.toList.loop bytes i front = front.reverse ++ bytes.data.toList.drop i := by
  fun_induction ByteArray.toList.loop bytes i front with
  | case1 i front h ih =>
    have hi : i < bytes.data.toList.length := by simpa using h
    have hget : bytes.get! i = bytes.data.toList[i] := by
      simp [ByteArray.get!, getElem!_pos bytes.data i h]
    rw [ih, List.drop_eq_getElem_cons hi, hget]
    simp
  | case2 i front h =>
    rw [List.drop_eq_nil_of_le (by simpa using Nat.le_of_not_lt h), List.append_nil]

theorem byteArray_toList (bytes : ByteArray) : bytes.toList = bytes.data.toList := by
  rw [ByteArray.toList, byteArray_toList_loop]
  rfl

theorem toByteArray_ofList (text : List Char) :
    (String.ofList text).toByteArray = ⟨(encode text).toArray⟩ := by
  rw [String.toByteArray_ofList, List.utf8Encode]
  exact ByteArray.ext (List.data_toByteArray)

/-- The bytes of a text stand for it. -/
theorem fromUTF8?_toUTF8 (text : String) : String.fromUTF8? text.toUTF8 = some text := by
  rw [String.toUTF8_eq_toByteArray, String.fromUTF8?, dif_pos text.isValidUTF8]
  rfl

theorem fromUTF8?_encode (text : List Char) :
    String.fromUTF8? ⟨(encode text).toArray⟩ = some (String.ofList text) := by
  rw [← toByteArray_ofList]
  exact fromUTF8?_toUTF8 _

theorem toList_toUTF8 (text : String) : text.toUTF8.toList = encode text.toList := by
  have h := toByteArray_ofList text.toList
  rw [String.ofList_toList] at h
  rw [String.toUTF8, h, byteArray_toList]

/-! ## White space around a line -/

variable {line left right : List Char}

theorem trim_eq (line : List Char) : trim line = (line.dropWhile isWhite).rdropWhile isWhite := rfl

/-- White space only. -/
theorem trim_eq_nil (h : ∀ c ∈ line, isWhite c = true) : trim line = [] := by
  rw [trim_eq, List.dropWhile_eq_nil_iff.mpr h, List.rdropWhile_nil]

/-- A line without white space at its ends. -/
theorem trim_eq_self (hhead : ∀ c ∈ line.head?, isWhite c = false)
    (hlast : ∀ c ∈ line.getLast?, isWhite c = false) : trim line = line := by
  have hdrop : line.dropWhile isWhite = line := by
    cases line with
    | nil => rfl
    | cons c rest => rw [List.dropWhile_cons, hhead c rfl, if_neg Bool.false_ne_true]
  rw [trim_eq, hdrop, List.rdropWhile_eq_self_iff]
  intro hne
  rw [hlast _ (List.getLast?_eq_getLast_of_ne_nil hne)]
  exact Bool.false_ne_true

/-- A line that does not start with white space starts as before. -/
theorem head?_trim {c : Char} (h : isWhite c = false) (rest : List Char) :
    (trim (c :: rest)).head? = some c := by
  rw [trim_eq, List.dropWhile_cons, h, if_neg Bool.false_ne_true]
  obtain ⟨dropped, hprefix⟩ := List.rdropWhile_prefix isWhite (c :: rest)
  cases hrest : (c :: rest).rdropWhile isWhite with
  | nil =>
    rw [List.rdropWhile_eq_nil_iff] at hrest
    exact absurd (hrest c List.mem_cons_self) (by simp [h])
  | cons c' kept =>
    rw [hrest] at hprefix
    cases hprefix
    rfl

/-- White space around a line. -/
theorem trim_append (hleft : ∀ c ∈ left, isWhite c = true)
    (hright : ∀ c ∈ right, isWhite c = true) : trim (left ++ line ++ right) = trim line := by
  have hreverse : ∀ c ∈ right.reverse, isWhite c = true := fun c hc =>
    hright c (List.mem_reverse.mp hc)
  rw [List.append_assoc, trim_eq, trim_eq, List.dropWhile_append_of_pos hleft,
    List.dropWhile_append]
  split
  · next hempty =>
    rw [List.dropWhile_eq_nil_iff.mpr hright, List.isEmpty_iff.mp hempty]
  · rw [List.rdropWhile, List.reverse_append, List.dropWhile_append_of_pos hreverse]
    rfl

theorem trim_withoutReturn (line : List Char) : trim (withoutReturn '\r' line) = trim line := by
  unfold withoutReturn
  split
  · next h =>
    obtain ⟨front, rfl⟩ := List.getLast?_eq_some_iff.mp h
    rw [List.dropLast_concat]
    have hwhite : ∀ c ∈ ['\r'], isWhite c = true := List.forall_mem_singleton.mpr rfl
    have h : trim ([] ++ front ++ ['\r']) = trim front := trim_append (by simp) hwhite
    exact h.symm
  · rfl

end Reckon.Text
