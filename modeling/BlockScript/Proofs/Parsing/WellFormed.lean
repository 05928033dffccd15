import BlockScript.Proofs.Parsing.Integers
import BlockScript.Proofs.Parsing.Origins
import BlockScript.Proofs.Single.ReadBack
import BlockScript.Proofs.Wire.Limits

namespace BlockScript

open Lexeme

/-- The node of an expression is one that a program can spell: numbers have no sign and are numbers,
operators and signs are defined, and names are no reserved words. Nothing spells an expression
without a value. -/
def Expr.WellFormed : Expr → Prop
  | .int value _ => 0 ≤ value.toInt
  | .float value _ => value.isNaN = false ∧ value.isNegative = false
  | .void _ => False
  | .identifier name _ =>
    Spells .identifier name.toList ∧ name ∉ Kind.keywords.map Prod.fst ∧
      name ≠ "true" ∧ name ≠ "false"
  | .binary op _ _ _ => op ∈ ["+", "-", "*", "/", "<", ">", "=="]
  | .unary op _ _ => op ∈ ["-", "++", "--"]
  | _ => True

namespace Lexeme

/-- A kind of token that is no literal and no name has a fixed text. -/
theorem spells_word {kind : Kind} {text : String} (h : Spells kind text.toList)
    (hk : kind ∉ [Kind.string, .int, .float, .identifier]) :
    (text, kind) ∈ symbols ++ Kind.keywords := by
  generalize hw : text.toList = w at h
  cases h with
  | symbol hmem =>
    rw [String.toList_inj.1 hw]
    exact List.mem_append_left _ hmem
  | keyword hmem =>
    rw [String.toList_inj.1 hw]
    exact List.mem_append_right _ hmem
  | _ => exact absurd (by decide) hk

theorem spells_float {w : List Char} (h : Spells .float w) :
    ∃ c, w.head? = some c ∧ c.isDigit = true := by
  cases h with
  | @float ds fs ex hd hf he =>
    obtain ⟨c, cs, rfl⟩ := List.exists_cons_of_ne_nil hd.1
    exact ⟨c, rfl, hd.2 c (List.mem_cons_self ..)⟩
  | symbol hmem => exact absurd (by decide) (word_kind (.inl hmem))
  | keyword hmem => exact absurd (by decide) (word_kind (.inr hmem))

theorem spells_identifier {name : String} (h : Spells .identifier name.toList) :
    name ∉ Kind.keywords.map Prod.fst := by
  generalize hw : name.toList = w at h
  cases h with
  | identifier _ hk =>
    intro hmem
    obtain ⟨k, hk', rfl⟩ := List.mem_map.1 hmem
    exact hk k hk' hw.symm
  | symbol hmem => exact absurd (by decide) (word_kind (.inl hmem))
  | keyword hmem => exact absurd (by decide) (word_kind (.inr hmem))

theorem spells_operator {l : Layer} {kind : Kind} {text : String} (h : Spells kind text.toList)
    (hk : kind ∈ l.operators) : text ∈ ["+", "-", "*", "/", "<", ">", "=="] := by
  have hall : ∀ p ∈ symbols ++ Kind.keywords, ∀ l ∈ [Layer.equality, .sum, .product],
      p.2 ∈ l.operators → p.1 ∈ ["+", "-", "*", "/", "<", ">", "=="] := by
    decide
  have hfixed : ∀ l ∈ [Layer.equality, .sum, .product], ∀ k ∈ l.operators,
      k ∉ [Kind.string, .int, .float, .identifier] := by
    decide
  have hl : l ∈ [Layer.equality, .sum, .product] := by
    cases l <;> first | decide | cases hk
  exact hall _ (spells_word h (hfixed l hl kind hk)) l hl hk

theorem spells_sign {kind : Kind} {text : String} (h : Spells kind text.toList)
    (hk : kind ∈ Layer.signs) : text ∈ ["-", "++", "--"] := by
  have hall : ∀ p ∈ symbols ++ Kind.keywords, p.2 ∈ Layer.signs → p.1 ∈ ["-", "++", "--"] := by
    decide
  have hfixed : ∀ k ∈ Layer.signs, k ∉ [Kind.string, .int, .float, .identifier] := by decide
  exact hall _ (spells_word h (hfixed kind hk)) hk

end Lexeme

theorem Literal.integer?_nonneg {text : String} {value : Int64} (h : Spells .int text.toList)
    (hv : integer? text = some value) : 0 ≤ value.toInt := by
  obtain ⟨ds, ex, hd, he, ht⟩ := spells_int h
  rw [integer?_spelled hd he ht] at hv
  split at hv
  · rename_i hfits
    rw [← Option.some.inj hv, Numeral.toInt_ofInt_natCast hfits.1]
    exact Int.natCast_nonneg _
  · cases hv

theorem Single.isNegative_ofMagnitude {m : Nat} (h : m < 0x80000000) :
    (ofMagnitude false m).isNegative = false := by
  simp [ofMagnitude, isNegative]
  omega

theorem Single.ofText?_float {text : String} {value : Single} (h : Spells .float text.toList)
    (hv : ofText? text = some value) : value.isNaN = false ∧ value.isNegative = false := by
  obtain ⟨c, hc, hd⟩ := spells_float h
  obtain ⟨m, hm, rfl⟩ := ofText?_digit hc hd hv
  exact ⟨isNaN_ofMagnitude hm false, isNegative_ofMagnitude (Nat.lt_of_le_of_lt hm (by decide))⟩

/-- The node of what spelled tokens spell is well formed. -/
theorem Derives.wellFormed {l : Layer} {u : List Token} {e : Expr}
    (hu : ∀ t ∈ u, Spells t.kind t.literal.toList) : Derives l u e → e.WellFormed
  | @Derives.int t _ hk hv => Literal.integer?_nonneg (hk ▸ hu t (List.mem_singleton_self t)) hv
  | @Derives.float t _ hk hv => Single.ofText?_float (hk ▸ hu t (List.mem_singleton_self t)) hv
  | .string _ | .yes _ _ | .no _ _ | .call .. | .index .. => trivial
  | @Derives.identifier t hk hy hn => by
    have ht := hu t (List.mem_singleton_self t)
    rw [hk] at ht
    exact ⟨ht, spells_identifier ht, hy, hn⟩
  | .round _ he _ => he.wellFormed fun t ht => hu t (by simp [ht])
  | @Derives.sign t _ _ ht _ => spells_sign (hu t (by simp)) ht
  | @Derives.operator _ t _ _ _ _ ht _ _ => spells_operator (hu t (by simp)) ht
  | .inner he => he.wellFormed hu

theorem Lexed.concat {ts : List Token} (h : Lexed ts) :
    ∃ init l, ts = init ++ [Token.finish l] ∧ ∀ t ∈ init, t.Spelled := by
  induction h with
  | finish l => exact ⟨[], l, rfl, nofun⟩
  | @cons t _ ht _ ih =>
    obtain ⟨init, l, rfl, hinit⟩ := ih
    exact ⟨t :: init, l, rfl, List.forall_mem_cons.2 ⟨ht, hinit⟩⟩

/-- Every expression in the program of a text, at whatever level, is well formed. -/
theorem parse_wellFormed {file text : String} {tokens : List Token} {limit : Nat} {s : Stmt}
    (ht : tokenize file text = .ok tokens) (hs : parse tokens limit = .ok s) :
    ∀ node ∈ s.nodes 1, ∀ e, node.part = .expr e → e.WellFormed := by
  obtain ⟨init, l, rfl, hinit⟩ := (tokenize_lexed ht).1.concat
  intro node hn e he
  obtain ⟨u, hu, hd⟩ := parse_spelled rfl hs node hn e he
  exact hd.wellFormed fun t ht => (hinit t (hu.subset ht)).spells

/-- A number with a large exponent is read as an infinity. -/
theorem parse_wellFormed_infinite : ∃ tokens s, tokenize "f" "-n < 9.9e99" = .ok tokens ∧
    parse tokens 3 = .ok s ∧
    (s.nodes 1).map (fun node => (node.part.header.kind, node.part.header.payload)) =
      [("Operator", ["<"]), ("UnaryOperator", ["-"]), ("Identifier", ["n"]),
        ("FloatLiteral", ["inf"])] ∧
    ∀ node ∈ s.nodes 1, ∀ e, node.part = .expr e → e.WellFormed := by
  obtain ⟨tokens, s, ht, hs, h⟩ := exists_parsed "f" "-n < 9.9e99" 3 (fun _ s =>
    (s.nodes 1).map (fun node => (node.part.header.kind, node.part.header.payload)) =
      [("Operator", ["<"]), ("UnaryOperator", ["-"]), ("Identifier", ["n"]),
        ("FloatLiteral", ["inf"])]) (by decide +kernel)
  exact ⟨tokens, s, ht, hs, of_decide_eq_true h, parse_wellFormed ht hs⟩

end BlockScript
