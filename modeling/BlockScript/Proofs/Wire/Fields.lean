import BlockScript.Proofs.Wire.Headers
import BlockScript.Token.Stream

namespace BlockScript

theorem mem_splitOn {c : Char} {cs piece : List Char} (h : piece ∈ cs.splitOn c) :
    c ∉ piece ∧ piece ⊆ cs := by
  induction cs generalizing piece with
  | nil =>
    rw [List.splitOn_nil, List.mem_singleton] at h
    subst h
    exact ⟨List.not_mem_nil, List.nil_subset _⟩
  | cons d cs ih =>
    rw [List.splitOn_cons_eq_if_modifyHead] at h
    split at h
    · rcases List.mem_cons.1 h with rfl | h
      · exact ⟨List.not_mem_nil, List.nil_subset _⟩
      · exact ⟨(ih h).1, List.subset_cons_of_subset d (ih h).2⟩
    · rename_i hd
      cases hpieces : cs.splitOn c with
      | nil => exact absurd hpieces (List.splitOn_ne_nil c cs)
      | cons first pieces =>
        rw [hpieces] at h ih
        rcases List.mem_cons.1 h with rfl | h
        · have hfirst := ih (List.mem_cons_self ..)
          have hne : c ≠ d := fun hc => hd (by simp [hc])
          exact ⟨by simp [hne, hfirst.1], List.cons_subset_cons d hfirst.2⟩
        · have hpiece := ih (List.mem_cons_of_mem _ h)
          exact ⟨hpiece.1, List.subset_cons_of_subset d hpiece.2⟩

namespace Text

theorem dropReturn_subset (cs : List Char) : dropReturn cs ⊆ cs := by
  unfold dropReturn
  split
  · exact List.dropLast_subset cs
  · exact List.Subset.refl cs

theorem mem_linesOfPieces {pieces : List (List Char)} {line : List Char}
    (h : line ∈ linesOfPieces pieces) : ∃ piece ∈ pieces, line ⊆ piece := by
  induction pieces with
  | nil => cases h
  | cons piece pieces ih =>
    cases pieces with
    | nil =>
      unfold linesOfPieces at h
      split at h
      · cases h
      · rw [List.mem_singleton.1 h]
        exact ⟨piece, List.mem_cons_self .., List.Subset.refl piece⟩
    | cons next pieces =>
      have hlines : linesOfPieces (piece :: next :: pieces) =
          dropReturn piece :: linesOfPieces (next :: pieces) := rfl
      rw [hlines] at h
      rcases List.mem_cons.1 h with rfl | h
      · exact ⟨piece, List.mem_cons_self .., dropReturn_subset piece⟩
      · obtain ⟨found, hfound, hline⟩ := ih h
        exact ⟨found, List.mem_cons_of_mem _ hfound, hline⟩

theorem unbroken_of_mem_lines {text line : String} (h : line ∈ lines text) :
    '\n' ∉ line.toList := by
  obtain ⟨cs, hcs, rfl⟩ := List.mem_map.1 h
  obtain ⟨piece, hpiece, hline⟩ := mem_linesOfPieces hcs
  rw [String.toList_ofList]
  exact fun hc => (mem_splitOn hpiece).1 (hline hc)

end Text

namespace Record

variable {line field : String}

theorem mem_fields (h : field ∈ fields line) : ' ' ∉ field.toList ∧ field.toList ⊆ line.toList := by
  obtain ⟨cs, hcs, rfl⟩ := List.mem_map.1 h
  rw [String.toList_ofList]
  exact mem_splitOn hcs

theorem line_fields (text : String) : Record.line (fields text) = text := by
  rw [← String.toList_inj, Record.line, String.toList_intercalate, fields, List.map_map]
  simp [List.intercalate_splitOn]

end Record

namespace Numeral

theorem natural?_lt {bound n : Nat} {cs : List Char} (h : natural? bound cs = some n) :
    n < bound := by
  unfold natural? at h
  split at h
  · simpa using (Option.filter_eq_some_iff.1 h).2
  · simpa using (Option.filter_eq_some_iff.1 h).2

end Numeral

namespace Location

theorem ofFields_ok {file row column : String} {l : Location}
    (h : ofFields [file, row, column] = .ok l) :
    l.file = unmarkSpaces file ∧ Numeral.word? row = some l.line ∧
      Numeral.word? column = some l.column := by
  cases hrow : Numeral.word? row with
  | none => simp [ofFields, hrow] at h
  | some r =>
    cases hcolumn : Numeral.word? column with
    | none => simp [ofFields, hrow, hcolumn] at h
    | some c =>
      simp only [ofFields, hrow, hcolumn] at h
      cases h
      exact ⟨rfl, rfl, rfl⟩

theorem mark_not_mem_unmark (file : String) : spaceMark ∉ (unmarkSpaces file).toList := by
  intro hmark
  rw [unmarkSpaces, String.toList_map, List.mem_map] at hmark
  obtain ⟨c, -, hc⟩ := hmark
  by_cases hs : c = spaceMark
  · rw [if_pos hs] at hc
    exact absurd hc (by decide)
  · rw [if_neg hs] at hc
    exact hs hc

theorem unbroken_unmark {file : String} (h : '\n' ∉ file.toList) :
    '\n' ∉ (unmarkSpaces file).toList := by
  intro hc
  rw [unmarkSpaces, String.toList_map, List.mem_map] at hc
  obtain ⟨c, hmem, hc⟩ := hc
  by_cases hs : c = spaceMark
  · rw [if_pos hs] at hc
    exact absurd hc (by decide)
  · rw [if_neg hs] at hc
    exact h (hc ▸ hmem)

/-- The file name of a place in an unbroken line holds no mark and no line feed. -/
theorem clean_file {line file : String} (hf : file ∈ Record.fields line)
    (hl : '\n' ∉ line.toList) :
    spaceMark ∉ (unmarkSpaces file).toList ∧ '\n' ∉ (unmarkSpaces file).toList := by
  refine ⟨mark_not_mem_unmark file, unbroken_unmark fun hc => ?_⟩
  exact hl ((Record.mem_fields hf).2 hc)

end Location

namespace Header

/-- The fields of a line that is a header. -/
theorem ofLine_ok {line : String} {h : Header} (hline : ofLine line = .ok h) :
    ∃ count file row column,
      Record.fields line = h.kind :: (h.payload ++ [count, file, row, column]) ∧
      Numeral.count? count = some h.children ∧
      Location.ofFields [file, row, column] = .ok h.location := by
  unfold ofLine at hline
  split at hline
  · cases hline
  · rename_i kind rest hfields
    split at hline
    · rename_i count file row column hrest
      split at hline
      · cases hline
      · rename_i location hlocation
        split at hline
        · cases hline
        · rename_i children hcount
          cases hline
          refine ⟨count, file, row, column, ?_, hcount, hlocation⟩
          rw [hfields, ← hrest, List.take_append_drop]
    · cases hline

end Header

namespace Token

theorem ofLine_place {line : String} {t : Token} (h : ofLine line = .ok t) :
    ∃ file ∈ Record.fields line, t.location.file = Location.unmarkSpaces file := by
  unfold ofLine at h
  split at h
  · rename_i kindName literal file row column hfields
    split at h
    · cases h
    · split at h
      · cases h
      · split at h
        · cases h
        · rename_i location hlocation
          cases h
          refine ⟨file, ?_, (Location.ofFields_ok hlocation).1⟩
          rw [hfields]
          simp
  · cases h

theorem exists_line {number : Nat} {ls : List String} {ts : List Token}
    (h : ofLines number ls = .ok ts) : ∀ t ∈ ts, ∃ line ∈ ls, ofLine line = .ok t := by
  induction ls generalizing number ts with
  | nil =>
    cases h
    exact nofun
  | cons line ls ih =>
    have hlater {us : List Token} (h : ofLines (number + 1) ls = .ok us) :
        ∀ t ∈ us, ∃ k ∈ line :: ls, ofLine k = .ok t := by
      intro t ht
      obtain ⟨k, hk, hline⟩ := ih h t ht
      exact ⟨k, List.mem_cons_of_mem _ hk, hline⟩
    rw [ofLines] at h
    split at h
    · exact hlater h
    · split at h
      · cases h
      · rename_i first hfirst
        obtain ⟨rest, hrest, rfl⟩ := exists_of_map_ok h
        exact List.forall_mem_cons.2 ⟨⟨line, List.mem_cons_self .., hfirst⟩, hlater hrest⟩

/-- Tokens that were read from a stream name files without marks and line feeds. -/
theorem clean_files {text : String} {ts : List Token} (h : readStream text = .ok ts) :
    ∀ t ∈ ts, Location.spaceMark ∉ t.location.file.toList ∧ '\n' ∉ t.location.file.toList := by
  intro t ht
  obtain ⟨line, hline, hread⟩ := exists_line h t ht
  obtain ⟨file, hfile, hlocation⟩ := ofLine_place hread
  rw [hlocation]
  exact Location.clean_file hfile (Text.unbroken_of_mem_lines hline)

end Token
end BlockScript
