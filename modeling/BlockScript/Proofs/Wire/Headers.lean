import BlockScript.Program.Encoding
import BlockScript.Proofs.Wire.Lines

namespace BlockScript

namespace Header

/-- The own text of a header cannot break its line apart, and its children can be counted. -/
structure Fit (h : Header) : Prop where
  kind : Field.Clean h.kind
  payload : ∀ f ∈ h.payload, Field.Clean f
  children : h.children < 2 ^ 64

def carried (h : Header) : Header := { h with location := h.location.carried }

theorem toLine_carried (h : Header) : h.carried.toLine = h.toLine := by
  rw [toLine, carried, Location.toFields_carried]
  rfl

variable {h : Header}

theorem clean_fields (hkind : Field.Clean h.kind) (hpayload : ∀ f ∈ h.payload, Field.Clean f) :
    ∀ f ∈ h.kind :: h.payload ++ [toString h.children], Field.Clean f :=
  List.forall_mem_append.2 ⟨List.forall_mem_cons.2 ⟨hkind, hpayload⟩,
    List.forall_mem_singleton.2 (Field.clean_nat _)⟩

theorem Fit.clean (hf : h.Fit) :
    ∀ f ∈ h.kind :: h.payload ++ [toString h.children], Field.Clean f :=
  clean_fields hf.kind hf.payload

theorem toLine_eq (h : Header) :
    h.toLine =
      Record.line (h.kind :: h.payload ++ [toString h.children] ++ h.location.toFields) := by
  rw [List.append_assoc]
  rfl

/-- A header is read back up to the marks in its file name. -/
theorem Fit.ofLine_toLine (hf : h.Fit) : ofLine h.toLine = .ok h.carried := by
  have hfields := Record.fields_located hf.clean h.location
  have hassoc : h.kind :: h.payload ++ [toString h.children] ++ h.location.toFields =
      h.kind :: (h.payload ++ [toString h.children, Location.markSpaces h.location.file,
        toString h.location.line.toNat, toString h.location.column.toNat]) := by
    rw [List.append_assoc]
    rfl
  have hlength (count file row column : String) :
      (h.payload ++ [count, file, row, column]).length - 4 = h.payload.length := by simp
  have hlocation := Location.ofFields_toFields h.location
  rw [Location.toFields] at hlocation
  rw [ofLine, h.toLine_eq, hfields, hassoc]
  simp only [hlength, List.drop_left, List.take_left, hlocation,
    Numeral.count?_toString hf.children]
  rfl

end Header

theorem Form.clean_name (f : Form) : Field.Clean f.name := by
  cases f <;> decide

theorem Expr.clean_payload (e : Expr) : ∀ f ∈ e.payload, Field.Clean f := by
  intro f hf
  cases e <;> simp only [payload, List.mem_singleton, List.not_mem_nil] at hf <;> subst hf
  · exact Field.clean_int _
  · exact Field.clean_plain _
  · exact Field.clean_escape _
  · exact Field.clean_word _
  · exact Field.clean_escape _
  · decide
  · decide
  · exact Field.clean_escape _
  · exact Field.clean_escape _

theorem Stmt.clean_payload (s : Stmt) : ∀ f ∈ s.payload, Field.Clean f := by
  cases s with
  | expr e => exact e.clean_payload
  | _ =>
    refine List.forall_mem_singleton.2 ?_
    decide

theorem Stmt.fit_header {s : Stmt} (h : s.parts.length < 2 ^ 64) : s.header.Fit :=
  ⟨Form.clean_name _, s.clean_payload, h⟩

/-- A node is one line, if its file name is. -/
theorem Stmt.whole_header {s : Stmt} (h : '\n' ∉ s.location.file.toList) :
    Text.Whole s.header.toLine := by
  rw [s.header.toLine_eq]
  exact Record.whole_located (Header.clean_fields (Form.clean_name _) s.clean_payload) _ h

end BlockScript
