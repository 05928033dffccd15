import BlockScript.Proofs.Wire.Fields
import BlockScript.Proofs.Wire.LineFeed
import BlockScript.Proofs.Wire.Tokens

namespace BlockScript

theorem Text.unlines_eq_intercalate (ls : List String) :
    unlines ls = "\n".intercalate (ls ++ [""]) := by
  by_cases h : ls = []
  · subst h
    simp [unlines]
  · rw [unlines_eq h, String.intercalate_append_of_ne_nil h (by simp), String.intercalate_singleton,
      String.append_empty]

namespace Token

/-- A token comes out of a stream as it was just if its file name holds no mark. -/
theorem carried_eq_iff (t : Token) :
    t.carried = t ↔ Location.spaceMark ∉ t.location.file.toList := by
  constructor
  · intro h
    rw [← h]
    exact Location.mark_not_mem_unmark t.location.file
  · exact carried_eq

theorem ofLine_ok {line : String} {t : Token} (h : ofLine line = .ok t) :
    (Record.fields line).length = 5 := by
  unfold ofLine at h
  split at h
  · rename_i kindName literal file row column hfields
    rw [hfields]
    rfl
  · cases h

/-- In a stream that is read every line holds a token or nothing. -/
theorem ofLines_ok {number : Nat} {ls : List String} {ts : List Token}
    (h : ofLines number ls = .ok ts) : ∀ line ∈ ls, line = "" ∨ ∃ t, ofLine line = .ok t := by
  induction ls generalizing number ts with
  | nil => exact nofun
  | cons line ls ih =>
    rw [ofLines] at h
    by_cases hempty : line = ""
    · rw [if_pos hempty] at h
      exact List.forall_mem_cons.2 ⟨.inl hempty, ih h⟩
    · rw [if_neg hempty] at h
      cases hline : ofLine line with
      | error flaw =>
        rw [hline] at h
        cases h
      | ok t =>
        rw [hline] at h
        cases hrest : ofLines (number + 1) ls with
        | error fault =>
          rw [hrest] at h
          cases h
        | ok rest => exact List.forall_mem_cons.2 ⟨.inr ⟨t, hline⟩, ih hrest⟩

theorem toLine_eq (t : Token) :
    t.toLine = Record.line ([t.kind.name, Field.escape t.literal] ++
      Location.markSpaces t.location.file ::
        [toString t.location.line.toNat, toString t.location.column.toNat]) := rfl

theorem exists_ink (k : Kind) : ∃ c ∈ k.name.toList, c ≠ '\r' := by
  cases k <;> exact ⟨_, List.mem_cons_self .., by decide⟩

/-- A stream with a token whose file name holds a line feed has a line that holds neither a token
nor nothing. -/
theorem exists_broken {ts : List Token} {t : Token} (ht : t ∈ ts)
    (hl : '\n' ∈ t.location.file.toList) :
    ∃ line ∈ Text.lines (writeStream ts), line ≠ "" ∧ (Record.fields line).length ≠ 5 := by
  have hmem : t.toLine ∈ ts.map toLine ++ [""] := List.mem_append_left _ (List.mem_map_of_mem ht)
  rw [toLine_eq] at hmem
  obtain ⟨a, hspace, hline⟩ :=
    Record.exists_brokenLine (by simp) (by simp) t.clean_fields hl hmem
  rw [← Text.unlines_eq_intercalate] at hline
  refine ⟨_, hline, ?_, ?_⟩
  · intro hempty
    obtain ⟨c, hc, hreturn⟩ := exists_ink t.kind
    have hink := Record.mem_brokenLine (a := a) hc hreturn [Field.escape t.literal]
    rw [hempty] at hink
    cases hink
  · have hlength := Record.length_fields_brokenLine t.clean_fields hspace
    simp only [List.length_cons, List.length_nil] at hlength
    omega

theorem readStream_writeStream_ne {ts : List Token} {t : Token} (ht : t ∈ ts)
    (hl : '\n' ∈ t.location.file.toList) (us : List Token) :
    readStream (writeStream ts) ≠ .ok us := by
  intro h
  obtain ⟨line, hline, hne, hfields⟩ := exists_broken ht hl
  obtain hempty | ⟨u, hu⟩ := ofLines_ok h line hline
  · exact hne hempty
  · exact hfields (ofLine_ok hu)

end Token

/-- A token stream is read back as it was written just if no file name of a token holds the mark for
a space or a line feed. -/
theorem stream_read_back (ts : List Token) :
    Token.readStream (Token.writeStream ts) = .ok ts ↔
      ∀ t ∈ ts, Location.spaceMark ∉ t.location.file.toList ∧ '\n' ∉ t.location.file.toList := by
  constructor
  · intro h t ht
    have hfeed : ∀ t ∈ ts, '\n' ∉ t.location.file.toList := by
      intro t ht hl
      exact Token.readStream_writeStream_ne ht hl ts h
    refine ⟨?_, hfeed t ht⟩
    rw [Token.readStream_writeStream hfeed] at h
    have hcarried : ts.map Token.carried = ts.map id := by
      rw [List.map_id]
      exact Except.ok.inj h
    exact (Token.carried_eq_iff t).1 (List.map_inj_left.1 hcarried t ht)
  · intro h
    rw [Token.readStream_writeStream fun t ht => (h t ht).2]
    have hcarried : ts.map Token.carried = ts := by
      rw [List.map_congr_left fun t ht => (Token.carried_eq_iff t).2 (h t ht).1]
      exact List.map_id' ts
    rw [hcarried]

end BlockScript
