import BlockScript.Proofs.Wire.Looks
import BlockScript.Proofs.Wire.Prefixes
import BlockScript.Token.Stream

namespace BlockScript

namespace Decode

variable {α : Type}

/-- The numbers of the lines that are looked at for one that is not blank. -/
def blankLooks : Nat → List String → List Nat
  | _, [] => []
  | number, line :: rest =>
    number :: if Text.isBlankLine line then blankLooks (number + 1) rest else []

/-- The numbers of the lines that are looked at when a step runs on a whole text. -/
inductive LooksWhole (step : Decode α) (text : String) : List Nat → Prop where
  | stop {numbers : List Nat} {fault : Fault} (hx : Looks step (.ofText text) numbers)
    (hr : step (.ofText text) = .error fault) : LooksWhole step text numbers
  | go {numbers : List Nat} {value : α} {next : Listing} (hx : Looks step (.ofText text) numbers)
    (hr : step (.ofText text) = .ok (value, next)) :
    LooksWhole step text (numbers ++ blankLooks next.number next.rest)

theorem blankLooks_consecutive (number : Nat) (lines : List String) :
    blankLooks number lines = List.range' number (blankLooks number lines).length := by
  induction lines generalizing number with
  | nil => rfl
  | cons line rest ih =>
    rw [blankLooks]
    split
    · rw [List.length_cons, List.range'_succ, ← ih]
    · rfl

theorem length_blankLooks_le (number : Nat) (lines : List String) :
    (blankLooks number lines).length ≤ lines.length := by
  induction lines generalizing number with
  | nil => simp [blankLooks]
  | cons line rest ih =>
    have hrest := ih (number + 1)
    rw [blankLooks]
    split <;> simp
    exact hrest

theorem blankFrom_error {number : Nat} {lines : List String} {fault : Fault}
    (h : blankFrom number lines = .error fault) :
    ∃ blank line rest, lines = blank ++ line :: rest ∧
      (∀ k ∈ blank, Text.isBlankLine k = true) ∧ Text.isBlankLine line = false ∧
      fault = .line (number + blank.length) .trailingInput := by
  induction lines generalizing number with
  | nil => cases h
  | cons line rest ih =>
    rw [blankFrom] at h
    split at h
    · rename_i hline
      obtain ⟨blank, line', rest', rfl, hblank, hline', rfl⟩ := ih h
      refine ⟨line :: blank, line', rest', rfl, List.forall_mem_cons.2 ⟨hline, hblank⟩, hline', ?_⟩
      rw [List.length_cons, Nat.add_assoc, Nat.add_comm 1]
    · rename_i hline
      cases h
      exact ⟨[], line, rest, rfl, List.forall_mem_nil _, Bool.eq_false_of_not_eq_true hline, rfl⟩

variable {step : Decode α} (h : LineByLine step 1)

include h

theorem LineByLine.looksWhole (text : String) :
    ∃ count, count ≤ (Text.lines text).length + 1 ∧ LooksWhole step text (List.range' 1 count) := by
  obtain ⟨numbers, hlooks, -⟩ := h (Text.lines text)
  have hnumbers : numbers = List.range' 1 numbers.length := hlooks.consecutive
  cases hr : step (.ofText text) with
  | error fault =>
    refine ⟨numbers.length, hlooks.length_le, ?_⟩
    rw [← hnumbers]
    exact .stop hlooks hr
  | ok r =>
    obtain ⟨value, next⟩ := r
    obtain ⟨hnumber, used, hused, hlength⟩ := hlooks.passed hr
    have hfirst : next.number = 1 + numbers.length := hnumber
    have hblank := blankLooks_consecutive next.number next.rest
    have hle := length_blankLooks_le next.number next.rest
    refine ⟨numbers.length + (blankLooks next.number next.rest).length, ?_, ?_⟩
    · rw [show Text.lines text = used ++ next.rest from hused, List.length_append]
      omega
    · rw [← List.range'_append_1, ← hfirst, ← hblank, ← hnumbers]
      exact .go hlooks hr

/-- If a step finds fault with a line, then it does so whatever lines follow that one. -/
theorem LineByLine.step_error (hend : step ⟨1, []⟩ = .error (.line 1 .inputEnded))
    {lines : List String} {number : Nat} {flaw : LineFlaw}
    (hr : step ⟨1, lines⟩ = .error (.line number flaw)) :
    1 ≤ number ∧ number ≤ lines.length + 1 ∧
      (number ≤ lines.length → ∀ other,
        step ⟨1, lines.take number ++ other⟩ = .error (.line number flaw)) := by
  obtain ⟨numbers, hlooks, hplace⟩ := h lines
  have hnumber : numbers.length = number := by
    have hl := hplace number flaw hr
    omega
  have hle : numbers.length ≤ lines.length + 1 := hlooks.length_le
  refine ⟨?_, by omega, ?_⟩
  · -- a step that looks at no line fails in the same way where there is none
    apply Nat.one_le_iff_ne_zero.2
    rintro rfl
    have hnone := hlooks.outcome (List.nil_append lines).symm hnumber.symm []
    rw [hr] at hnone
    cases hend.symm.trans hnone
  · intro hin other
    have hother := hlooks.outcome (List.take_append_drop number lines).symm
      (by rw [List.length_take_of_le hin, hnumber]) other
    rw [hr] at hother
    exact hother

/-- If a step succeeds and a line behind its own is not blank, then the lines behind that one do not
matter. -/
theorem LineByLine.trailing {text : String} {value : α} {next : Listing} {fault : Fault}
    (hr : step (.ofText text) = .ok (value, next))
    (hblank : blankFrom next.number next.rest = .error fault) :
    ∃ number, fault = .line number .trailingInput ∧ 1 ≤ number ∧
      number ≤ (Text.lines text).length ∧ ∀ other,
        (Text.lines other).take number = (Text.lines text).take number →
        whole step other = .error fault := by
  obtain ⟨numbers, hlooks, -⟩ := h (Text.lines text)
  obtain ⟨hnumber, used, hused, hlength⟩ := hlooks.passed hr
  have hfirst : next.number = 1 + numbers.length := hnumber
  obtain ⟨blank, line, rest, hrest, hall, hline, rfl⟩ := blankFrom_error hblank
  have hlines : Text.lines text = (used ++ (blank ++ [line])) ++ rest := by
    rw [show Text.lines text = used ++ next.rest from hused, hrest]
    simp
  have hcount : (used ++ (blank ++ [line])).length = next.number + blank.length := by
    simp only [List.length_append, List.length_singleton]
    omega
  refine ⟨next.number + blank.length, rfl, by omega, ?_, ?_⟩
  · rw [hlines, List.length_append, hcount]
    omega
  · intro other hsame
    rw [hlines, ← hcount, List.take_left] at hsame
    have hother : Text.lines other = used ++ (blank ++ line :: (Text.lines other).drop
        (used ++ (blank ++ [line])).length) := by
      conv_lhs => rw [← List.take_append_drop (used ++ (blank ++ [line])).length (Text.lines other)]
      rw [hsame]
      simp
    have hstep := hlooks.outcome hused hlength
      (blank ++ line :: (Text.lines other).drop (used ++ (blank ++ [line])).length)
    rw [← hother, show step ⟨1, Text.lines text⟩ = _ from hr] at hstep
    rw [whole, Listing.ofText, hstep]
    show (blankFrom next.number _).map _ = _
    rw [blankFrom_blank hall, blankFrom, hline]
    rfl

/-- If decoding finds fault with a line, then it does so whatever lines follow that one. -/
theorem LineByLine.whole_error (hend : step ⟨1, []⟩ = .error (.line 1 .inputEnded)) {text : String}
    {number : Nat} {flaw : LineFlaw} (hw : whole step text = .error (.line number flaw)) :
    1 ≤ number ∧ number ≤ (Text.lines text).length + 1 ∧
      (number ≤ (Text.lines text).length → ∀ other,
        (Text.lines other).take number = (Text.lines text).take number →
        whole step other = .error (.line number flaw)) := by
  unfold whole at hw
  cases hr : step (.ofText text) with
  | error fault =>
    rw [hr] at hw
    cases hw
    obtain ⟨hpos, hle, hsame⟩ := h.step_error hend hr
    refine ⟨hpos, hle, ?_⟩
    intro hin other hother
    have hstep := hsame hin ((Text.lines other).drop number)
    rw [← hother, List.take_append_drop] at hstep
    rw [whole, Listing.ofText, hstep]
  | ok r =>
    obtain ⟨value, next⟩ := r
    rw [hr] at hw
    cases hblank : blankFrom next.number next.rest with
    | ok _ =>
      simp only [hblank] at hw
      cases hw
    | error fault =>
      simp only [hblank] at hw
      cases hw
      obtain ⟨_, hfault, hpos, hle, hsame⟩ := h.trailing hr hblank
      cases hfault
      exact ⟨hpos, by omega, fun _ => hsame⟩

end Decode

namespace Token

/-- A line of a token stream that is passed over or read. -/
def Readable (line : String) : Prop := line = "" ∨ ∃ t, ofLine line = .ok t

/-- A stream is rejected at the first line that is neither passed over nor read. -/
theorem ofLines_rejected {before : List String} (hbefore : ∀ l ∈ before, Readable l) {line : String}
    (hne : line ≠ "") {flaw : Flaw} (hline : ofLine line = .error flaw) (number : Nat)
    (after : List String) :
    ofLines number (before ++ line :: after) =
      .error (.line (number + before.length) (.token flaw)) := by
  induction before generalizing number with
  | nil =>
    rw [List.nil_append, ofLines, if_neg hne, hline]
    rfl
  | cons l before ih =>
    rw [List.forall_mem_cons] at hbefore
    have hrest := ih hbefore.2 (number + 1)
    rw [List.cons_append, ofLines, hrest, List.length_cons, Nat.add_assoc, Nat.add_comm 1]
    split
    · rfl
    · rename_i hl
      obtain ⟨t, ht⟩ := hbefore.1.resolve_left hl
      rw [ht]
      rfl

theorem ofLines_error {number : Nat} {lines : List String} {fault : Fault}
    (h : ofLines number lines = .error fault) :
    ∃ before line after flaw, lines = before ++ line :: after ∧ (∀ l ∈ before, Readable l) ∧
      line ≠ "" ∧ ofLine line = .error flaw ∧
      fault = .line (number + before.length) (.token flaw) := by
  induction lines generalizing number with
  | nil => cases h
  | cons l lines ih =>
    rw [ofLines] at h
    by_cases hempty : l = ""
    · rw [if_pos hempty] at h
      obtain ⟨before, line, after, flaw, rfl, hbefore, hne, hline, rfl⟩ := ih h
      refine ⟨l :: before, line, after, flaw, rfl, ?_, hne, hline, ?_⟩
      · exact List.forall_mem_cons.2 ⟨.inl hempty, hbefore⟩
      · rw [List.length_cons, Nat.add_assoc, Nat.add_comm 1]
    · rw [if_neg hempty] at h
      cases hl : ofLine l with
      | error flaw =>
        rw [hl] at h
        cases h
        exact ⟨[], l, lines, flaw, rfl, List.forall_mem_nil _, hempty, hl, rfl⟩
      | ok t =>
        rw [hl] at h
        cases hrest : ofLines (number + 1) lines with
        | ok ts =>
          rw [hrest] at h
          cases h
        | error fault' =>
          rw [hrest] at h
          cases h
          obtain ⟨before, line, after, flaw, rfl, hbefore, hne, hline, rfl⟩ := ih hrest
          refine ⟨l :: before, line, after, flaw, rfl, ?_, hne, hline, ?_⟩
          · exact List.forall_mem_cons.2 ⟨.inr ⟨t, hl⟩, hbefore⟩
          · rw [List.length_cons, Nat.add_assoc, Nat.add_comm 1]

end Token

/-- Decoding looks at the lines of a text one after the other, whatever numbers of parts they
announce, and at most once at each. A line that is to blame is one of the text or the missing one
behind its last, and no line behind it matters. In a token stream the first line is to blame that
holds something other than a token. -/
theorem faults_of_lines (limit : Nat) (text : String) :
    (∃ count, count ≤ (Text.lines text).length + 1 ∧
      Decode.LooksWhole (Decode.statement limit limit) text (List.range' 1 count)) ∧
    (∀ number flaw, Stmt.decode limit text = .error (.line number flaw) →
      1 ≤ number ∧ number ≤ (Text.lines text).length + 1 ∧
      (number ≤ (Text.lines text).length → ∀ other,
        (Text.lines other).take number = (Text.lines text).take number →
        Stmt.decode limit other = .error (.line number flaw))) ∧
    ∀ fault, Token.readStream text = .error fault →
      ∃ before line after flaw, Text.lines text = before ++ line :: after ∧
        (∀ l ∈ before, Token.Readable l) ∧ line ≠ "" ∧ Token.ofLine line = .error flaw ∧
        fault = .line (before.length + 1) (.token flaw) ∧
        ∀ other,
          (Text.lines other).take (before.length + 1) =
            (Text.lines text).take (before.length + 1) →
          Token.readStream other = .error fault := by
  have hstep := Decode.lineByLine_statement limit limit 1
  have hend : Decode.statement limit limit ⟨1, []⟩ = .error (.line 1 .inputEnded) := by
    cases limit <;> rfl
  refine ⟨hstep.looksWhole text, ?_, ?_⟩
  · intro number flaw h
    exact hstep.whole_error hend h
  · intro fault h
    obtain ⟨before, line, after, flaw, hlines, hbefore, hne, hline, rfl⟩ := Token.ofLines_error h
    rw [Nat.add_comm 1]
    refine ⟨before, line, after, flaw, hlines, hbefore, hne, hline, rfl, ?_⟩
    intro other hother
    have hlines' := List.take_append_drop (before.length + 1) (Text.lines other)
    rw [hother, hlines, List.take_length_add_append, List.append_assoc,
      List.take_succ_cons, List.take_zero, List.singleton_append] at hlines'
    rw [Token.readStream, ← hlines', Token.ofLines_rejected hbefore hne hline, Nat.add_comm 1]

/-- A block that announces as many parts as a machine word can count, and a stream with an empty
line. -/
theorem faults_of_lines_unparted :
    let block := "Scope \x7b 18446744073709551615 f 1 1\nVoid 0 f 1 2\nVoid 1 f 1 3\n"
    let stream := "Semicolon ; f 1 1\n\nSemicolon ; f 1\n"
    (∃ count ≤ 4, Decode.LooksWhole (Decode.statement 2 2) block (List.range' 1 count)) ∧
    Stmt.decode 2 block = .error (.line 3 (.node "Void" (.children 0 1))) ∧
    Stmt.decode 2 (block ++ "x") = .error (.line 3 (.node "Void" (.children 0 1))) ∧
    Token.readStream stream = .error (.line 3 (.token (.fieldCount 4))) ∧
    Token.readStream (stream ++ "x") = .error (.line 3 (.token (.fieldCount 4))) := by
  intro block stream
  obtain ⟨⟨count, hcount, hlooks⟩, hblock, -⟩ := faults_of_lines 2 block
  obtain ⟨-, -, hstream⟩ := faults_of_lines 2 stream
  have hlines : (Text.lines block).length = 3 := by decide +kernel
  have hfault : Stmt.decode 2 block = .error (.line 3 (.node "Void" (.children 0 1))) := by
    have hmap : (Stmt.decode 2 block).map Stmt.encode =
        .error (.line 3 (.node "Void" (.children 0 1))) := by decide +kernel
    cases h : Stmt.decode 2 block with
    | ok s =>
      rw [h] at hmap
      cases hmap
    | error fault =>
      rw [h] at hmap
      exact congrArg Except.error (Except.error.inj hmap)
  have hread : Token.readStream stream = .error (.line 3 (.token (.fieldCount 4))) := by
    decide +kernel
  obtain ⟨-, -, hsame⟩ := hblock _ _ hfault
  obtain ⟨before, line, after, flaw, hstreamLines, -, -, -, hplace, hother⟩ := hstream _ hread
  have hbefore : before.length = 2 := by
    injection hplace with hnumber
    omega
  rw [hlines] at hcount
  refine ⟨⟨count, hcount, hlooks⟩, hfault, ?_, hread, ?_⟩
  · apply hsame
    · rw [hlines]
    · decide +kernel
  · apply hother
    rw [hbefore]
    decide +kernel

end BlockScript
