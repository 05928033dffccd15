import BlockScript.Proofs.Lexing.Pieces
import BlockScript.Proofs.Parsing.Origins
import BlockScript.Proofs.Wire.Floats
import BlockScript.Proofs.Wire.RoundTrip
import BlockScript.Proofs.Wire.Tokens

namespace BlockScript

/-- An encoding changes nothing in this node: its file name has no marks, and it is no float that is
no number. -/
structure Node.Unchanged (node : Node) : Prop where
  unmarked : Location.spaceMark ∉ node.part.location.file.toList
  number : ∀ x l, node.part = .expr (.float x l) → x.isNaN = false

theorem Single.carried_eq {x : Single} (h : x.isNaN = false) : x.carried = x := by
  simp [carried, h]

theorem Node.Unchanged.carries {node : Node} (h : node.Unchanged) : node.Carries id :=
  ⟨Location.carried_eq h.unmarked, fun x l hx => Single.carried_eq (h.number x l hx)⟩

/-- A tree whose nodes are all unchanged comes out of an encoding as it is. -/
theorem Stmt.carried_eq (s : Stmt) (level : Nat) (h : ∀ node ∈ s.nodes level, node.Unchanged) :
    s.carried = s := by
  rw [s.carried_eq_mapFloats level fun node hn => (h node hn).carries, s.mapFloats_id]

section

variable {file text : String} {tokens : List Token} {limit : Nat} {s : Stmt}

/-- The tokens of a text are read back as they are. -/
theorem readStream_tokenize (hmark : Location.spaceMark ∉ file.toList) (hline : '\n' ∉ file.toList)
    (ht : tokenize file text = .ok tokens) :
    Token.readStream (Token.writeStream tokens) = .ok tokens := by
  have hpieces := (Source.tokenize_pieces ht).pieces
  have hwhole : ∀ t ∈ tokens, '\n' ∉ t.location.file.toList := by
    intro t h
    rw [(hpieces t h).file]
    exact hline
  have hcarried : ∀ t ∈ tokens, t.carried = t := by
    intro t h
    apply Token.carried_eq
    rw [(hpieces t h).file]
    exact hmark
  rw [Token.readStream_writeStream hwhole, List.map_congr_left hcarried, List.map_id']

/-- What is known of the nodes of a program: they lie in its file, a machine word counts their parts
if it counts the characters of the text, and their floats are numbers. -/
theorem compiled_node (hlength : text.length < 2 ^ 64) (ht : tokenize file text = .ok tokens)
    (hs : parse tokens limit = .ok s) {node : Node} (hn : node ∈ s.nodes 1) :
    node.part.location.file = file ∧ node.Counted ∧
      ∀ x l, node.part = .expr (.float x l) → x.isNaN = false := by
  obtain ⟨hpieces, init, last, rfl, hlast, hinit⟩ := Source.tokenize_pieces ht
  obtain ⟨⟨⟨t, ht, hl⟩, -, hfloat⟩, hparts⟩ := parse_nodes hlast hs node hn
  refine ⟨?_, ?_, ?_⟩
  · rw [hl, (hpieces t ht).file]
  · have hcount : node.part.parts.length ≤ text.length := Nat.le_trans hparts hinit
    exact Nat.lt_of_le_of_lt hcount hlength
  · -- a float token begins with a digit, so its text names a number
    intro x l hx
    obtain ⟨k, hk, hkind, hvalue⟩ := hfloat x l hx
    obtain ⟨c, hc, hd⟩ := (hpieces k hk).float hkind
    obtain ⟨m, hm, rfl⟩ := Single.ofText?_digit hc hd hvalue
    exact Single.isNaN_ofMagnitude hm false

variable (hmark : Location.spaceMark ∉ file.toList) (hline : '\n' ∉ file.toList)
  (hlength : text.length < 2 ^ 64) (ht : tokenize file text = .ok tokens)
  (hs : parse tokens limit = .ok s)

include hmark hline hlength ht hs

/-- Decoding an encoded program gives the same program, unless a node lies too deep. A line feed at
the end changes nothing. -/
theorem decode_compiled {ending : String} (he : ending = "" ∨ ending = "\n") :
    Stmt.decode limit (s.encode ++ ending) =
      match Node.firstDeeper limit (s.nodes 1) with
      | none => .ok s
      | some node => .error (.located (.tooDeep limit) node.part.location) := by
  have hcounted : ∀ node ∈ s.nodes 1, node.Counted := by
    intro node hn
    exact (compiled_node hlength ht hs hn).2.1
  have hwhole : ∀ node ∈ s.nodes 1, '\n' ∉ node.part.location.file.toList := by
    intro node hn
    rw [(compiled_node hlength ht hs hn).1]
    exact hline
  have hunchanged : ∀ node ∈ s.nodes 1, node.Unchanged := by
    intro node hn
    obtain ⟨hfile, -, hnumber⟩ := compiled_node hlength ht hs hn
    rw [← hfile] at hmark
    exact ⟨hmark, hnumber⟩
  have hended : Stmt.decode limit (s.encode ++ ending) = Stmt.decode limit s.encode := by
    rcases he with rfl | rfl
    · rw [String.append_empty]
    · exact s.decode_ended limit hwhole
  rw [hended, s.decode_encode limit hcounted hwhole, s.carried_eq 1 hunchanged]
  cases hd : Node.firstDeeper limit (s.nodes 1) with
  | none => rfl
  | some node => simp only [(hunchanged node (List.mem_of_find?_eq_some hd)).carries.location]

theorem decode_compiled_ok {ending : String} (he : ending = "" ∨ ending = "\n")
    (hlevel : ∀ node ∈ s.nodes 1, node.level ≤ limit) :
    Stmt.decode limit (s.encode ++ ending) = .ok s := by
  rw [decode_compiled hmark hline hlength ht hs he, Node.firstDeeper_eq_none.2 hlevel]

theorem decode_compiled_deep {ending : String} (he : ending = "" ∨ ending = "\n")
    (hlevel : ∃ node ∈ s.nodes 1, limit < node.level) :
    ∃ l, Stmt.decode limit (s.encode ++ ending) = .error (.located (.tooDeep limit) l) := by
  obtain ⟨deep, hn, hl⟩ := hlevel
  rw [decode_compiled hmark hline hlength ht hs he]
  cases hd : Node.firstDeeper limit (s.nodes 1) with
  | none => exact absurd (Node.firstDeeper_eq_none.1 hd deep hn) (Nat.not_le.2 hl)
  | some node => exact ⟨_, rfl⟩

end

end BlockScript
