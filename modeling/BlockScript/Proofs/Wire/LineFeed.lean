import BlockScript.Proofs.Wire.Consumption
import BlockScript.Proofs.Wire.Fields
import BlockScript.Proofs.Wire.RoundTrip

namespace BlockScript

theorem length_splitOn (c : Char) (cs : List Char) : (cs.splitOn c).length = cs.count c + 1 := by
  induction cs with
  | nil => simp
  | cons d cs ih =>
    rw [List.splitOn_cons_eq_if_modifyHead, List.count_cons]
    split
    · rw [List.length_cons, ih]
    · rw [List.length_modifyHead, ih, Nat.add_zero]

/-- Breaking joined texts apart breaks each of them apart. -/
theorem splitOn_intercalate (c : Char) {ts : List (List Char)} (h : ts ≠ []) :
    ([c].intercalate ts).splitOn c = ts.flatMap fun t => t.splitOn c := by
  induction ts with
  | nil => exact absurd rfl h
  | cons t ts ih =>
    cases ts with
    | nil => simp
    | cons t' ts =>
      rw [List.intercalate_cons_cons, List.append_assoc, List.singleton_append,
        List.splitOn_append_cons_self, ih (List.cons_ne_nil _ _)]
      rfl

namespace Text

theorem mem_dropReturn {c : Char} {cs : List Char} (h : c ∈ cs) (hc : c ≠ '\r') :
    c ∈ dropReturn cs := by
  unfold dropReturn
  split
  · rename_i hl
    rw [← List.dropLast_append_getLast? _ hl, List.mem_append, List.mem_singleton] at h
    exact h.resolve_right hc
  · exact h

theorem count_dropReturn (c : Char) (cs : List Char) : (dropReturn cs).count c ≤ cs.count c := by
  unfold dropReturn
  split
  · exact (List.dropLast_sublist cs).count_le c
  · exact Nat.le_refl _

/-- A piece with something behind its line feed is a line. -/
theorem dropReturn_mem_linesOfPieces {before after : List (List Char)} {piece : List Char}
    (h : after ≠ []) : dropReturn piece ∈ linesOfPieces (before ++ piece :: after) := by
  induction before with
  | nil =>
    cases after with
    | nil => exact absurd rfl h
    | cons next after => exact List.mem_cons_self ..
  | cons first before ih =>
    cases hb : before ++ piece :: after with
    | nil => simp at hb
    | cons next rest =>
      rw [List.cons_append, hb, linesOfPieces, ← hb]
      · exact List.mem_cons_of_mem _ ih
      · exact List.cons_ne_nil _ _

/-- The first piece of a broken text among others is a line of theirs. -/
theorem mem_lines_of_broken {ts : List String} {t : String} {first rest : List Char} (ht : t ∈ ts)
    (h : t.toList = first ++ '\n' :: rest) (hf : '\n' ∉ first) :
    String.ofList (dropReturn first) ∈ lines ("\n".intercalate ts) := by
  obtain ⟨before, after, rfl⟩ := List.append_of_mem ht
  rw [lines, String.toList_intercalate, show "\n".toList = ['\n'] from rfl,
    splitOn_intercalate _ (by simp)]
  refine List.mem_map.2 ⟨_, ?_, rfl⟩
  rw [List.map_append, List.map_cons, List.flatMap_append, List.flatMap_cons, h,
    List.splitOn_append_cons_self_of_not_mem hf, List.cons_append]
  exact dropReturn_mem_linesOfPieces (by simp)

end Text

namespace Header

/-- A header has five fields at least. -/
theorem not_announced_of_short {line : String} (h : (Record.fields line).length ≤ 4) :
    ¬Announced line := by
  rintro ⟨announced, hline⟩
  obtain ⟨count, file, row, column, hfields, -⟩ := ofLine_ok hline
  rw [hfields, List.length_cons, List.length_append] at h
  simp at h

end Header

theorem Form.exists_ink (f : Form) : ∃ c ∈ f.name.toList, Text.isBlank c = false ∧ c ≠ '\r' := by
  cases f <;> exact ⟨_, List.mem_cons_self .., by decide⟩

theorem Expr.length_payload (e : Expr) : e.payload.length ≤ 1 := by
  cases e <;> simp [payload]

theorem Stmt.length_payload (s : Stmt) : s.payload.length ≤ 1 := by
  cases s with
  | expr e => exact e.length_payload
  | _ => exact Nat.le_refl 1

namespace Record

theorem length_fields (line : String) : (fields line).length = line.toList.count ' ' + 1 := by
  rw [fields, List.length_map, length_splitOn]

variable {known : List String} {a b : List Char}

theorem toList_line_append (hk : known ≠ []) (f : String) :
    (line (known ++ [f])).toList = (line known).toList ++ ' ' :: f.toList := by
  rw [line_append hk (by simp), String.toList_append, String.toList_append]
  simp [line]

theorem mem_line_cons {c : Char} {f : String} (hc : c ∈ f.toList) (fs : List String) :
    c ∈ (line (f :: fs)).toList := by
  cases fs with
  | nil => simpa [line] using hc
  | cons g gs =>
    rw [← List.singleton_append, line_append (by simp) (by simp), String.toList_append,
      String.toList_append]
    simp [line, hc]

/-- A field with a line feed breaks its record behind the fields before it and its own beginning. -/
theorem toList_line_broken {f : String} {others : List String} (hk : known ≠ [])
    (ho : others ≠ []) (hf : f.toList = a ++ '\n' :: b) :
    (line (known ++ f :: others)).toList =
      (line (known ++ [String.ofList a])).toList ++ '\n' :: (b ++ ' ' :: (line others).toList) := by
  have hsplit : known ++ f :: others = (known ++ [f]) ++ others := by simp
  rw [hsplit, line_append (by simp) ho, String.toList_append, String.toList_append,
    toList_line_append hk, toList_line_append hk, hf, String.toList_ofList]
  simp

/-- The first line of a record that is broken within the field behind the known ones. -/
def brokenLine (known : List String) (a : List Char) : String :=
  String.ofList (Text.dropReturn (line (known ++ [String.ofList a])).toList)

theorem length_fields_brokenLine (hc : ∀ f ∈ known, Field.Clean f) (ha : ' ' ∉ a) :
    (fields (brokenLine known a)).length ≤ known.length + 1 := by
  have hclean : ∀ f ∈ known ++ [String.ofList a], ' ' ∉ f.toList := by
    refine List.forall_mem_append.2 ⟨fun f hf h => (hc f hf _ h).1 rfl, ?_⟩
    simpa using ha
  have hcount := length_fields (line (known ++ [String.ofList a]))
  rw [fields_line (by simp) hclean, List.length_append, List.length_singleton] at hcount
  have hle := Text.count_dropReturn ' ' (line (known ++ [String.ofList a])).toList
  rw [length_fields, brokenLine, String.toList_ofList]
  omega

theorem mem_brokenLine {c : Char} {f : String} (hc : c ∈ f.toList) (hreturn : c ≠ '\r')
    (fs : List String) : c ∈ (brokenLine (f :: fs) a).toList := by
  rw [brokenLine, String.toList_ofList]
  exact Text.mem_dropReturn (mem_line_cons hc _) hreturn

/-- A record whose file name holds a line feed is broken there. -/
theorem exists_brokenLine {file : String} {others ts : List String} (hk : known ≠ [])
    (ho : others ≠ []) (hc : ∀ f ∈ known, Field.Clean f) (hl : '\n' ∈ file.toList)
    (ht : line (known ++ Location.markSpaces file :: others) ∈ ts) :
    ∃ a, ' ' ∉ a ∧ brokenLine known a ∈ Text.lines ("\n".intercalate ts) := by
  have hmark : '\n' ∈ (Location.markSpaces file).toList := by
    rw [Location.markSpaces, String.toList_map]
    exact List.mem_map.2 ⟨'\n', hl, rfl⟩
  obtain ⟨a, b, hab, ha⟩ := List.eq_append_cons_of_mem hmark
  have hspace : ' ' ∉ a := fun h => by
    have hfile := Location.space_not_mem_mark file
    rw [hab] at hfile
    exact hfile (List.mem_append_left _ h)
  have hunbroken : '\n' ∉ (line (known ++ [String.ofList a])).toList := by
    refine unbroken_line (List.forall_mem_append.2 ⟨fun f hf h => ?_, ?_⟩)
    · exact (hc f hf _ h).2 rfl
    · simpa using ha
  exact ⟨a, hspace, Text.mem_lines_of_broken ht (toList_line_broken hk ho hab) hunbroken⟩

end Record

/-- The encoding of a node whose file name holds a line feed has a line that is no header and not
blank. -/
theorem Node.exists_broken {node : Node} (hc : node.Counted)
    (hl : '\n' ∈ node.part.location.file.toList) {ts : List String} (ht : node.toLine ∈ ts) :
    ∃ line ∈ Text.lines ("\n".intercalate ts),
      ¬Header.Announced line ∧ Text.isBlankLine line = false := by
  have hline : node.toLine = Record.line ((node.part.header.kind :: node.part.header.payload ++
      [toString node.part.header.children]) ++ Location.markSpaces node.part.location.file ::
      [toString node.part.location.line.toNat, toString node.part.location.column.toNat]) :=
    node.part.header.toLine_eq
  rw [hline] at ht
  obtain ⟨a, hspace, hmem⟩ :=
    Record.exists_brokenLine (by simp) (by simp) hc.fit.clean hl ht
  refine ⟨_, hmem, ?_, ?_⟩
  · refine Header.not_announced_of_short
      ((Record.length_fields_brokenLine hc.fit.clean hspace).trans ?_)
    have hp : node.part.header.payload.length ≤ 1 := node.part.length_payload
    simp only [List.length_append, List.length_cons, List.length_nil]
    omega
  · obtain ⟨c, hck, hink, hreturn⟩ := node.part.form.exists_ink
    refine Bool.eq_false_iff.2 fun hblank => ?_
    have hc := List.all_eq_true.1 hblank c (Record.mem_brokenLine hck hreturn _)
    rw [hink] at hc
    cases hc

/-- A tree with a line feed in a file name has no readable encoding. -/
theorem Stmt.decode_encode_ne_ok (limit : Nat) {s : Stmt} (hc : ∀ node ∈ s.nodes 1, node.Counted)
    {node : Node} (hn : node ∈ s.nodes 1) (hl : '\n' ∈ node.part.location.file.toList) (t : Stmt) :
    decode limit s.encode ≠ .ok t := by
  intro h
  have henc : s.encode = "\n".intercalate ((s.nodes 1).map Node.toLine) := by
    rw [encode, s.headers_eq 1, List.map_map]
    rfl
  obtain ⟨line, hline, hannounced, hblank⟩ := Node.exists_broken (hc node hn) hl
    (List.mem_map_of_mem hn : node.toLine ∈ (s.nodes 1).map Node.toLine)
  rw [← henc] at hline
  rcases Decode.whole_ok (Decode.consumes_statement limit limit) h hline with ha | hb
  · exact hannounced ha
  · rw [hblank] at hb
    cases hb

end BlockScript
