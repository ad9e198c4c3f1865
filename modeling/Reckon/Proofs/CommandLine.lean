import Reckon.CommandLine
import Reckon.Proofs.Session.History
import Reckon.Proofs.Session.Random
import Reckon.Proofs.Text.Lines

/-!
# Three ways to hand in lines

The program takes the same lines as arguments, from standard input or from files, and does the same
with them. Standard input may have blank lines between them, files also comments, and in files the
lines may be indented. `Layout` says what a text looks like that has certain lines in it. Each run
of the program draws its own random numbers; where no line calls `rand`, they make no difference.

Results:
* `Layout.flatMap_lines`: reading a text line by line gives its lines and nothing else.
* `ofInput_of_layout`, `flatMap_ofFile`: the entries of standard input and of files.
* `status_process`: what the exit status says.
* `Alike.process`: lines without `rand` have the same outcome whatever the random numbers are.
* `outcome_agree`: the three ways have the same outcome.
-/

namespace Reckon

open Text (isWhite trim withoutReturn)

/-! ## Texts with certain lines in them -/

/-- A line that stays what it is in all three ways: neither empty nor a comment, and without white
space at its ends. -/
structure PlainLine (line : String) : Prop where
  noLineFeed : '\n' ∉ line.toList
  notEmpty : line.toList ≠ []
  head : ∀ c ∈ line.toList.head?, isWhite c = false
  last : ∀ c ∈ line.toList.getLast?, isWhite c = false
  noComment : line.toList.head? ≠ some '#'

instance (line : String) : Decidable (PlainLine line) :=
  decidable_of_iff ('\n' ∉ line.toList ∧ line.toList ≠ [] ∧
      line.toList.head?.all (fun c => isWhite c = false) ∧
      line.toList.getLast?.all (fun c => isWhite c = false) ∧ line.toList.head? ≠ some '#') <| by
    simp only [Option.all_eq_true, decide_eq_true_eq]
    exact ⟨fun ⟨h₁, h₂, h₃, h₄, h₅⟩ => ⟨h₁, h₂, h₃, h₄, h₅⟩,
      fun ⟨h₁, h₂, h₃, h₄, h₅⟩ => ⟨h₁, h₂, h₃, h₄, h₅⟩⟩

/-- The ends of lines, LF and CR LF. -/
def IsLineEnd (ending : List Char) : Prop := ending = ['\n'] ∨ ending = ['\r', '\n']

/-- A text that consists of the given lines, written as `form` says, and of lines to be skipped.
Each has a line end, which only the last may lack. -/
inductive Layout (skipped : List Char → Prop) (form : String → List Char → Prop) :
    List String → List Char → Prop
  | done : Layout skipped form [] []
  | skip {lines : List String} {raw ending rest : List Char} (h : skipped raw)
      (he : IsLineEnd ending) (hr : Layout skipped form lines rest) :
      Layout skipped form lines (raw ++ ending ++ rest)
  | line {line : String} {lines : List String} {raw ending rest : List Char} (h : form line raw)
      (he : IsLineEnd ending) (hr : Layout skipped form lines rest) :
      Layout skipped form (line :: lines) (raw ++ ending ++ rest)
  | lastSkip {raw : List Char} (h : skipped raw) : Layout skipped form [] raw
  | lastLine {line : String} {raw : List Char} (h : form line raw) : Layout skipped form [line] raw

/-- A blank line. -/
def Blank (raw : List Char) : Prop := ∀ c ∈ raw, isWhite c = true ∧ c ≠ '\n'

instance (raw : List Char) : Decidable (Blank raw) :=
  List.decidableBAll (fun c => isWhite c = true ∧ c ≠ '\n') raw

/-- A line of a comment, which may be indented. -/
def Comment (raw : List Char) : Prop :=
  ∃ indent rest, Blank indent ∧ '\n' ∉ rest ∧ raw = indent ++ '#' :: rest

/-- The line and nothing else. -/
def Bare (line : String) (raw : List Char) : Prop := raw = line.toList

/-- The line, possibly indented or followed by white space. -/
def Padded (line : String) (raw : List Char) : Prop :=
  ∃ left right, Blank left ∧ Blank right ∧ raw = left ++ line.toList ++ right

/-- Standard input that has these lines in it, and blank lines. -/
def InputHolds (lines : List String) (input : ByteArray) : Prop :=
  ∃ text : String, input = text.toUTF8 ∧ Layout Blank Bare lines text.toList

/-- A line of a file that says nothing. -/
def Idle (raw : List Char) : Prop := Blank raw ∨ Comment raw

/-- Files that together have these lines in them, and blank lines and comments. -/
inductive FilesHold (contents? : String → Option ByteArray) : List String → List String → Prop
  | nil : FilesHold contents? [] []
  | cons {path text : String} {paths here behind : List String}
      (hc : contents? path = some text.toUTF8)
      (ht : Layout Idle Padded here text.toList)
      (hp : FilesHold contents? paths behind) : FilesHold contents? (path :: paths) (here ++ behind)

/-! ## Reading line by line -/

theorem lines_lineEnd {raw ending : List Char} (h : '\n' ∉ raw) (he : IsLineEnd ending)
    (rest : List Char) : ∃ line, (line = raw ∨ line = withoutReturn '\r' raw) ∧
      Text.lines '\n' '\r' (raw ++ ending ++ rest) = line :: Text.lines '\n' '\r' rest := by
  rcases he with rfl | rfl
  · refine ⟨_, .inr rfl, ?_⟩
    rw [List.append_assoc]
    exact Text.lines_append '\r' h rest
  · refine ⟨_, .inl rfl, ?_⟩
    have hmem : '\n' ∉ raw ++ ['\r'] := by simp [h]
    have hlines := Text.lines_append '\r' hmem rest
    rw [Text.withoutReturn_append] at hlines
    rw [← hlines, List.append_assoc, List.append_assoc]
    rfl

/-- Reading a text line by line, where `read` gives the entries of one line, gives the lines that
the text has in it. -/
theorem Layout.flatMap_lines {skipped : List Char → Prop} {form : String → List Char → Prop}
    {read : List Char → List Entry} (hempty : read [] = [])
    (hskipped : ∀ raw, skipped raw → '\n' ∉ raw ∧
      ∀ line, line = raw ∨ line = withoutReturn '\r' raw → read line = [])
    {lines : List String} {text : List Char}
    (hform : ∀ line ∈ lines, ∀ raw, form line raw → '\n' ∉ raw ∧
      ∀ l, l = raw ∨ l = withoutReturn '\r' raw → read l = [.text line])
    (h : Layout skipped form lines text) :
    (Text.lines '\n' '\r' text).flatMap read = lines.map .text := by
  have hlast {raw : List Char} (hraw : '\n' ∉ raw) :
      (Text.lines '\n' '\r' raw).flatMap read = read raw := by
    rw [Text.lines_of_not_mem hraw]
    by_cases hnil : raw = []
    · simp [hnil, hempty]
    · simp [hnil]
  induction h with
  | done => rfl
  | @skip lines raw ending rest h he _ ih =>
    obtain ⟨hraw, hread⟩ := hskipped raw h
    obtain ⟨line, hline, hlines⟩ := lines_lineEnd hraw he rest
    rw [hlines, List.flatMap_cons, hread line hline, ih hform, List.nil_append]
  | @line l lines raw ending rest h he _ ih =>
    obtain ⟨hl, hrest⟩ := List.forall_mem_cons.mp hform
    obtain ⟨hraw, hread⟩ := hl raw h
    obtain ⟨line, hline, hlines⟩ := lines_lineEnd hraw he rest
    rw [hlines, List.flatMap_cons, hread line hline, ih hrest]
    rfl
  | @lastSkip raw h =>
    obtain ⟨hraw, hread⟩ := hskipped raw h
    rw [hlast hraw, hread raw (.inl rfl)]
    rfl
  | @lastLine line raw h =>
    obtain ⟨hraw, hread⟩ := hform line (List.mem_singleton_self line) raw h
    rw [hlast hraw, hread raw (.inl rfl)]
    rfl

theorem Blank.trim {raw : List Char} (h : Blank raw) : trim raw = [] :=
  Text.trim_eq_nil fun c hc => (h c hc).1

theorem Blank.noLineFeed {raw : List Char} (h : Blank raw) : '\n' ∉ raw :=
  fun hc => (h _ hc).2 rfl

theorem PlainLine.trim {line : String} (h : PlainLine line) : trim line.toList = line.toList :=
  Text.trim_eq_self h.head h.last

/-! ## Standard input -/

namespace Entry

/-- The entry of a line of standard input, if it is not blank. -/
def ofInputLine (line : List Char) : List Entry :=
  if isBlankLine line then [] else [text (String.ofList line)]

theorem ofInputLines_encode (lines : List (List Char)) :
    ofInputLines (lines.map Text.encode) = lines.flatMap ofInputLine := by
  induction lines with
  | nil => rfl
  | cons line rest ih =>
    rw [List.map_cons, ofInputLines, Text.fromUTF8?_encode, List.flatMap_cons, ofInputLine]
    simp only [String.toList_ofList, ih]
    split <;> rfl

/-- The entries of standard input that is a text. -/
theorem ofInput_toUTF8 (text : String) :
    ofInput text.toUTF8 = (Text.lines '\n' '\r' text.toList).flatMap ofInputLine := by
  rw [ofInput, Text.toList_toUTF8, Text.lines_encode, ofInputLines_encode]

theorem ofInputLine_of_trim {line : List Char} (h : trim line = []) : ofInputLine line = [] := by
  rw [ofInputLine, isBlankLine, h]
  rfl

theorem ofInputLine_of_plain {line : String} (h : PlainLine line) :
    ofInputLine line.toList = [text line] := by
  have hne : isBlankLine line.toList = false := by
    rw [isBlankLine, h.trim, List.isEmpty_eq_false_iff]
    exact h.notEmpty
  rw [ofInputLine, hne, String.ofList_toList]
  rfl

/-- The entries of standard input are the lines in it. -/
theorem ofInput_of_layout {lines : List String} {input : ByteArray}
    (hlines : ∀ line ∈ lines, PlainLine line) (h : InputHolds lines input) :
    ofInput input = lines.map text := by
  obtain ⟨content, rfl, h⟩ := h
  rw [ofInput_toUTF8]
  refine h.flatMap_lines rfl (fun raw hraw => ⟨hraw.noLineFeed, ?_⟩) fun line hline raw hraw => ?_
  · rintro line (rfl | rfl)
    · exact ofInputLine_of_trim hraw.trim
    · exact ofInputLine_of_trim ((Text.trim_withoutReturn raw).trans hraw.trim)
  · have hplain := hlines line hline
    obtain rfl : raw = line.toList := hraw
    have hreturn : line.toList.getLast? ≠ some '\r' := by
      intro hlast
      exact absurd (hplain.last '\r' hlast) (by decide)
    refine ⟨hplain.noLineFeed, ?_⟩
    rw [Text.withoutReturn_of_getLast? hreturn]
    rintro l (rfl | rfl) <;> exact ofInputLine_of_plain hplain

/-! ## Files -/

/-- The entry of a line of a file, if it is neither blank nor a comment. -/
def ofFileLine (line : List Char) : List Entry :=
  if (trim line).isEmpty || (trim line).head? = some '#' then []
  else [text (String.ofList (trim line))]

theorem ofFileText_eq_flatMap (contents : List Char) :
    ofFileText contents = (Text.lines '\n' '\r' contents).flatMap ofFileLine := by
  rw [ofFileText]
  induction Text.lines '\n' '\r' contents with
  | nil => rfl
  | cons line rest ih =>
    rw [List.map_cons, List.filter_cons, List.flatMap_cons, ofFileLine, ← ih]
    by_cases hempty : (trim line).isEmpty = true
    · simp [hempty]
    · by_cases hcomment : (trim line).head? = some '#'
      · simp [hempty, hcomment]
      · simp [hempty, hcomment]

/-- White space around a line of a file plays no part. -/
theorem ofFileLine_congr {line line' : List Char} (h : trim line = trim line') :
    ofFileLine line = ofFileLine line' := by
  rw [ofFileLine, ofFileLine, h]

theorem ofFileLine_of_plain {line : String} (h : PlainLine line) :
    ofFileLine line.toList = [text line] := by
  rw [ofFileLine, h.trim, List.isEmpty_eq_false_iff.mpr h.notEmpty, String.ofList_toList]
  simp [h.noComment]

theorem ofFileLine_of_comment (rest : List Char) : ofFileLine ('#' :: rest) = [] := by
  have hhead : (trim ('#' :: rest)).head? = some '#' := Text.head?_trim (by decide) rest
  simp [ofFileLine, hhead]

/-- The entries of a file are the lines in it. -/
theorem ofFileText_of_layout {lines : List String} {contents : List Char}
    (hlines : ∀ line ∈ lines, PlainLine line)
    (h : Layout Idle Padded lines contents) :
    ofFileText contents = lines.map text := by
  have hwithout {raw line : List Char} (h : line = raw ∨ line = withoutReturn '\r' raw) :
      ofFileLine line = ofFileLine raw := by
    rcases h with rfl | rfl
    · rfl
    · exact ofFileLine_congr (Text.trim_withoutReturn raw)
  rw [ofFileText_eq_flatMap]
  refine h.flatMap_lines rfl (fun raw hraw => ?_) fun line hline raw hraw => ?_
  · rcases hraw with hblank | ⟨indent, rest, hindent, hrest, rfl⟩
    · refine ⟨hblank.noLineFeed, fun line h => ?_⟩
      rw [hwithout h, ofFileLine, hblank.trim]
      rfl
    · refine ⟨by simp [hindent.noLineFeed, hrest], fun line h => ?_⟩
      rw [hwithout h, ← List.append_nil (_ ++ _),
        ofFileLine_congr (Text.trim_append (fun c hc => (hindent c hc).1) (by simp)),
        ofFileLine_of_comment]
  · have hplain := hlines line hline
    obtain ⟨left, right, hleft, hright, rfl⟩ := hraw
    refine ⟨by simp [hleft.noLineFeed, hright.noLineFeed, hplain.noLineFeed], fun l h => ?_⟩
    rw [hwithout h, ofFileLine_congr (Text.trim_append (fun c hc => (hleft c hc).1)
      fun c hc => (hright c hc).1), ofFileLine_of_plain hplain]

/-- The entries of several files are the lines in them, one file after the other. -/
theorem flatMap_ofFile {contents? : String → Option ByteArray} {paths lines : List String}
    (hlines : ∀ line ∈ lines, PlainLine line) (h : FilesHold contents? paths lines) :
    paths.flatMap (ofFile contents?) = lines.map text := by
  induction h with
  | nil => rfl
  | @cons path content paths here behind hc ht _ ih =>
    obtain ⟨hhere, hbehind⟩ := List.forall_mem_append.mp hlines
    rw [List.flatMap_cons, ih hbehind, ofFile, hc, Option.bind_some, Text.fromUTF8?_toUTF8,
      List.map_append]
    dsimp only
    rw [ofFileText_of_layout hhere ht]

end Entry

/-! ## The outcome -/

namespace Session

/-- Every line has a value in the session that the lines before it leave behind. -/
def AllSucceed (s : Session) (lines : List String) : Prop :=
  ∀ before line behind, lines = before ++ line :: behind → (s.evaluateAll before).Succeeds line

theorem allSucceed_cons {s : Session} {line : String} {rest : List String} :
    s.AllSucceed (line :: rest) ↔ s.Succeeds line ∧ (s.evaluate line).2.AllSucceed rest := by
  constructor
  · refine fun h => ⟨h [] line rest rfl, fun before l behind hsplit => ?_⟩
    exact h (line :: before) l behind (by rw [hsplit, List.cons_append])
  · rintro ⟨hline, hrest⟩ before l behind hsplit
    cases before with
    | nil =>
      cases hsplit
      exact hline
    | cons first others =>
      cases hsplit
      exact hrest others l behind rfl

/-- The exit status is zero just if every line has a value. -/
theorem status_process (s : Session) (good : Bool) (lines : List String) :
    (s.process good (lines.map .text)).status = 0 ↔ good = true ∧ s.AllSucceed lines := by
  induction lines generalizing s good with
  | nil =>
    have hnil : s.AllSucceed [] := fun before line behind h => by simp at h
    cases good <;> simp [process, hnil]
  | cons line rest ih =>
    rw [allSucceed_cons, List.map_cons, process]
    cases hevaluate : s.evaluate line with
    | mk result after =>
      cases result with
      | ok value => simp [answer, hevaluate, ih, Succeeds]
      | error failure => simp [answer, hevaluate, ih, Succeeds]

/-- Lines without `rand` have the same outcome in sessions that bind all variables alike. -/
theorem Alike.process {s s' : Session} (h : Alike s s') {lines : List String}
    (hlines : ∀ line ∈ lines, Deterministic line) (good : Bool) :
    s.process good (lines.map .text) = s'.process good (lines.map .text) := by
  induction lines generalizing s s' good with
  | nil => rfl
  | cons line rest ih =>
    obtain ⟨hline, hrest⟩ := List.forall_mem_cons.mp hlines
    obtain ⟨hresult, hafter⟩ := h.evaluate hline
    rcases hevaluate : s.evaluate line with ⟨result, after⟩
    rcases hevaluate' : s'.evaluate line with ⟨result', after'⟩
    rw [hevaluate, hevaluate'] at hresult hafter
    obtain rfl : result = result' := hresult
    cases result with
    | ok value => simp [Session.process, answer, hevaluate, hevaluate', ih hafter hrest]
    | error failure => simp [Session.process, answer, hevaluate, hevaluate', ih hafter hrest]

end Session

namespace Invocation

open Session (Deterministic)

theorem ofArguments_expressions {lines : List String} (h : lines ≠ []) :
    ofArguments ("--" :: lines) = .expressions lines := by
  simp [ofArguments, go, choose, h]

theorem ofArguments_files {paths : List String} (h : paths ≠ []) :
    ofArguments ("-f" :: "--" :: paths) = .files paths := by
  have hflag : flags? "-f" = some [.file] := rfl
  simp [ofArguments, go, hflag, setFlags, choose, h]

/-- **The three ways agree**, on the same random numbers, and on different ones if no line calls
`rand`. -/
theorem outcome_agree {lines : List String} (hne : lines ≠ [])
    (hlines : ∀ line ∈ lines, PlainLine line) {input : ByteArray} (hinput : InputHolds lines input)
    {contents? : String → Option ByteArray} {paths : List String}
    (hfiles : FilesHold contents? paths lines) (random : RandomSource) : ∃ outcome : Outcome,
    (∀ random', random' = random ∨ (∀ line ∈ lines, Deterministic line) →
      (∀ input' contents?',
        (ofArguments ("--" :: lines)).outcome input' contents?' random' = outcome) ∧
      (∀ contents?', (ofArguments []).outcome input contents?' random' = outcome) ∧
      ∀ input',
        (ofArguments ("-f" :: "--" :: paths)).outcome input' contents? random' = outcome) ∧
    (outcome.status = 0 ↔ (Session.new random).AllSucceed lines) := by
  have hpaths : paths ≠ [] := by
    rintro rfl
    cases hfiles
    exact hne rfl
  refine ⟨(Session.new random).process true (lines.map .text), fun random' hrandom => ?_, ?_⟩
  · -- the session may draw from the other source; then all three ways hand it the same entries
    have hsame : (Session.new random).process true (lines.map .text) =
        (Session.new random').process true (lines.map .text) := by
      rcases hrandom with rfl | hrandom
      · rfl
      · exact (Session.Alike.new random random').process hrandom true
    rw [hsame]
    refine ⟨fun _ _ => ?_, fun _ => ?_, fun _ => ?_⟩
    · rw [ofArguments_expressions hne]
      rfl
    · rw [← Entry.ofInput_of_layout hlines hinput]
      rfl
    · rw [ofArguments_files hpaths, ← Entry.flatMap_ofFile hlines hfiles]
      rfl
  · rw [Session.status_process]
    simp

theorem outcome_agree_failure :
    let lines := ["a = 2", "a / 0", "a * 3"]
    let input := "\na = 2\r\n \na / 0\na * 3\n".toUTF8
    let contents? : String → Option ByteArray := fun path =>
      if path = "p" then some "  a = 2 \n# a\n".toUTF8 else some "a / 0\n\n\ta * 3".toUTF8
    let random (n : Nat) : RandomSource := ⟨fun k => .ofNat (n + k), n⟩
    let outcome : Outcome := ⟨[.value "2", .error "error: division by zero", .value "6"], 1⟩
    (∀ line ∈ lines, PlainLine line) ∧ (∀ line ∈ lines, Deterministic line) ∧
      InputHolds lines input ∧ FilesHold contents? ["p", "q"] lines ∧
      (ofArguments ("--" :: lines)).outcome .empty contents? (random 1) = outcome ∧
      (ofArguments []).outcome input contents? (random 2) = outcome ∧
      (ofArguments ["-f", "--", "p", "q"]).outcome .empty contents? (random 3) = outcome ∧
      ¬(Session.new (random 1)).AllSucceed lines := by
  intro lines input contents? random outcome
  have hlines : ∀ line ∈ lines, PlainLine line := by decide +kernel
  have hrandom : ∀ line ∈ lines, Deterministic line := by decide +kernel
  have hinput : InputHolds lines input := by
    refine ⟨_, rfl, ?_⟩
    have h₃ : Layout Blank Bare ["a * 3"] ("a * 3".toList ++ ['\n'] ++ []) :=
      .line rfl (.inl rfl) .done
    have h₂ := Layout.line (show Bare "a / 0" "a / 0".toList from rfl) (.inl rfl) h₃
    have h₁ := Layout.skip (show Blank [' '] by decide) (.inl rfl) h₂
    have h₀ := Layout.line (show Bare "a = 2" "a = 2".toList from rfl) (.inr rfl) h₁
    exact .skip (show Blank [] by decide) (.inl rfl) h₀
  have hfiles : FilesHold contents? ["p", "q"] lines := by
    have hspaces : Blank [' ', ' '] := by decide
    have hspace : Blank [' '] := by decide
    have htab : Blank ['\t'] := by decide
    have hnone : Blank [] := by decide
    have hcomment : Idle "# a".toList := .inr ⟨[], " a".toList, hnone, by decide +kernel, rfl⟩
    have hfirst := Layout.line (show Padded "a = 2" "  a = 2 ".toList from
      ⟨_, _, hspaces, hspace, rfl⟩) (.inl rfl) (.skip hcomment (.inl rfl) .done)
    have hempty : Idle [] := .inl hnone
    have hlast : Padded "a * 3" "\ta * 3".toList := ⟨_, _, htab, hnone, rfl⟩
    have hsecond := Layout.line (show Padded "a / 0" "a / 0".toList from
      ⟨_, _, hnone, hnone, rfl⟩) (.inl rfl) (.skip hempty (.inl rfl) (.lastLine hlast))
    have hp : contents? "p" = some "  a = 2 \n# a\n".toUTF8 := rfl
    have hq : contents? "q" = some "a / 0\n\n\ta * 3".toUTF8 := rfl
    exact .cons hp hfirst (.cons hq hsecond .nil)
  have hvalue : (Session.new (random 1)).process true (lines.map .text) = outcome := by
    decide +kernel
  obtain ⟨o, hagree, hstatus⟩ := outcome_agree (by decide) hlines hinput hfiles (random 1)
  have hagree random' := hagree random' (.inr hrandom)
  have ho : o = outcome := ((hagree (random 1)).1 .empty contents?).symm.trans hvalue
  subst ho
  refine ⟨hlines, hrandom, hinput, hfiles, (hagree _).1 _ _, (hagree _).2.1 _, (hagree _).2.2 _,
    ?_⟩
  rw [← hstatus]
  decide

end Invocation

end Reckon
