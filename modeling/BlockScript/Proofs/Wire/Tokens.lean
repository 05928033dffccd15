import BlockScript.Proofs.Wire.Lines
import BlockScript.Token.Stream

namespace BlockScript

theorem Kind.clean_name (k : Kind) : Field.Clean k.name := by
  cases k <;> decide

namespace Token

/-- A token as it comes out of a stream. -/
def carried (t : Token) : Token := { t with location := t.location.carried }

theorem clean_fields (t : Token) : ∀ f ∈ [t.kind.name, Field.escape t.literal], Field.Clean f := by
  simp only [List.forall_mem_cons]
  exact ⟨t.kind.clean_name, Field.clean_escape _, List.forall_mem_nil _⟩

theorem ofLine_toLine (t : Token) : ofLine t.toLine = .ok t.carried := by
  have hlocation := Location.ofFields_toFields t.location
  rw [Location.toFields] at hlocation
  have hfields := Record.fields_located t.clean_fields t.location
  rw [List.cons_append, List.singleton_append, Location.toFields] at hfields
  rw [ofLine, toLine, Location.toFields, hfields]
  simp only [Kind.ofName?_name, Field.unescape_escape, hlocation]
  rfl

theorem whole_toLine {t : Token} (h : '\n' ∉ t.location.file.toList) : Text.Whole t.toLine :=
  Record.whole_located t.clean_fields t.location h

theorem ofLines_toLine {ts : List Token} (h : ∀ t ∈ ts, t.toLine ≠ "") (number : Nat) :
    ofLines number (ts.map toLine) = .ok (ts.map carried) := by
  induction ts generalizing number with
  | nil => rfl
  | cons t ts ih =>
    have hrest := ih (fun k hk => h k (List.mem_cons_of_mem _ hk)) (number + 1)
    rw [List.map_cons, ofLines, if_neg (h t (by simp)), t.ofLine_toLine, hrest]
    rfl

/-- A stream of tokens whose file names hold no line feed is read back up to the marks in these
names. -/
theorem readStream_writeStream {ts : List Token} (h : ∀ t ∈ ts, '\n' ∉ t.location.file.toList) :
    readStream (writeStream ts) = .ok (ts.map carried) := by
  have hwhole : ∀ line ∈ ts.map toLine, Text.Whole line := by
    intro line hline
    obtain ⟨t, ht, rfl⟩ := List.mem_map.1 hline
    exact whole_toLine (h t ht)
  rw [readStream, writeStream, Text.lines_unlines hwhole]
  exact ofLines_toLine (fun t ht => (hwhole _ (List.mem_map_of_mem ht)).ne_empty) 1

theorem carried_eq {t : Token} (h : Location.spaceMark ∉ t.location.file.toList) :
    t.carried = t := by
  rw [carried, Location.carried_eq h]

end Token
end BlockScript
