import BlockScript.Proofs.Parsing.Origins

namespace BlockScript

/-- What a tree keeps of a token, with its place. Of a number that is the value of its text, if the
text has one, of a word its text, and of an operator its sign. -/
inductive Imprint where
  | int (value : Option Int64) (location : Location)
  | float (value : Option Single) (location : Location)
  | string (value : String) (location : Location)
  | word (text : String) (location : Location)
  | operator (sign : String) (location : Location)
  | openSquare (location : Location)
  | ifBranch (location : Location)
  | forLoop (location : Location)
  | openCurly (location : Location)
deriving DecidableEq

/-- What a tree is to keep of a token; nothing of round brackets, of closing brackets, of separators
and of other words that structure a program. -/
def Token.imprint? (t : Token) : Option Imprint :=
  match t.kind with
  | .int => some (.int (Literal.integer? t.literal) t.location)
  | .float => some (.float (Single.ofText? t.literal) t.location)
  | .string => some (.string (Literal.string t.literal) t.location)
  | .identifier => some (.word t.literal t.location)
  | .add | .subtract | .multiply | .divide | .less | .greater | .equal | .increment
  | .decrement => some (.operator t.literal t.location)
  | .openSquare => some (.openSquare t.location)
  | .ifBranch => some (.ifBranch t.location)
  | .forLoop => some (.forLoop t.location)
  | .openCurly => some (.openCurly t.location)
  | _ => none

mutual

/-- What an expression keeps of tokens, in the order in which it is written. -/
def Expr.imprints : Expr → List Imprint
  | .int value l => [.int (some value) l]
  | .float value l => [.float (some value) l]
  | .string value l => [.string value l]
  | .bool value l => [.word (if value then "true" else "false") l]
  | .void _ => []
  | .identifier name l => [.word name l]
  | .call callee arguments _ => callee.imprints ++ Expr.allImprints arguments
  | .index subject position l => subject.imprints ++ .openSquare l :: position.imprints
  | .binary op left right l => left.imprints ++ .operator op l :: right.imprints
  | .unary op operand l => .operator op l :: operand.imprints

def Expr.allImprints : List Expr → List Imprint
  | [] => []
  | e :: es => e.imprints ++ Expr.allImprints es

end

mutual

/-- What a statement keeps of tokens, in the order in which it is written. -/
def Stmt.imprints : Stmt → List Imprint
  | .ifThen c primary l => .ifBranch l :: (c.imprints ++ primary.imprints)
  | .ifElse c primary alternative l =>
    .ifBranch l :: (c.imprints ++ primary.imprints ++ alternative.imprints)
  | .forLoop before c after body l =>
    .forLoop l :: (before.imprints ++ c.imprints ++ after.imprints ++ body.imprints)
  | .assign place value _ => place.imprints ++ value.imprints
  | .block body l => .openCurly l :: Stmt.allImprints body
  | .expr e => e.imprints

def Stmt.allImprints : List Stmt → List Imprint
  | [] => []
  | s :: ss => s.imprints ++ Stmt.allImprints ss

end

/-- Tokens of which these imprints are kept, and none of which ends a stream. -/
structure Leave (ts : List Token) (imprints : List Imprint) : Prop where
  unended : ∀ t ∈ ts, t.kind ≠ .finish
  kept : ts.filterMap Token.imprint? = imprints

namespace Leave

variable {ts us : List Token} {is js : List Imprint} {t : Token}

theorem nil : Leave [] [] := ⟨nofun, rfl⟩

theorem append (h : Leave ts is) (k : Leave us js) : Leave (ts ++ us) (is ++ js) := by
  refine ⟨List.forall_mem_append.2 ⟨h.unended, k.unended⟩, ?_⟩
  rw [List.filterMap_append, h.kept, k.kept]

theorem cons {i : Imprint} (ht : t.imprint? = some i) (h : Leave us js) :
    Leave (t :: us) (i :: js) := by
  have hunended : t.kind ≠ .finish := by
    intro hk
    simp [Token.imprint?, hk] at ht
  refine ⟨List.forall_mem_cons.2 ⟨hunended, h.unended⟩, ?_⟩
  rw [List.filterMap_cons, ht, h.kept]

end Leave

/-- The kinds of tokens of which nothing is kept inside a program. -/
def Kind.structural : List Kind :=
  [.assign, .elseBranch, .binding, .semicolon, .comma, .openRound, .closeRound, .closeCurly,
    .closeSquare]

theorem Leave.skip {t : Token} {k : Kind} {us : List Token} {js : List Imprint} (ht : t.kind = k)
    (hk : k ∈ Kind.structural) (h : Leave us js) : Leave (t :: us) js := by
  have hunended : k ≠ .finish := by
    rintro rfl
    exact absurd hk (by decide)
  have hnone : t.imprint? = none := by
    unfold Token.imprint?
    rw [ht]
    cases k <;> first | rfl | exact absurd hk (by decide)
  refine ⟨List.forall_mem_cons.2 ⟨by rw [ht]; exact hunended, h.unended⟩, ?_⟩
  rw [List.filterMap_cons, hnone, h.kept]

theorem Leave.closed {closing : Token} {k : Kind} {us : List Token} {js : List Imprint}
    (h : Leave us js) (hc : closing.kind = k) (hk : k ∈ Kind.structural) :
    Leave (us ++ [closing]) js := by
  have happend := h.append (.skip hc hk .nil)
  rwa [List.append_nil] at happend

theorem Token.imprint_operator {t : Token} {l : Layer} (ht : t.kind ∈ l.operators) :
    t.imprint? = some (.operator t.literal t.location) := by
  unfold imprint?
  cases hk : t.kind <;> rw [hk] at ht <;> first | rfl | (cases l <;> exact absurd ht (by decide))

theorem Token.imprint_sign {t : Token} (ht : t.kind ∈ Layer.signs) :
    t.imprint? = some (.operator t.literal t.location) := by
  unfold imprint?
  cases hk : t.kind <;> rw [hk] at ht <;> first | rfl | exact absurd ht (by decide)

mutual

/-- An expression keeps what is to be kept of its tokens, in their order. -/
theorem Derives.leave {l : Layer} {u : List Token} {e : Expr} : Derives l u e → Leave u e.imprints
  | @Derives.int t value hk hv => by
    rw [Expr.imprints, ← hv]
    exact .cons (by rw [Token.imprint?, hk]) .nil
  | @Derives.float t value hk hv => by
    rw [Expr.imprints, ← hv]
    exact .cons (by rw [Token.imprint?, hk]) .nil
  | @Derives.string t hk => by
    rw [Expr.imprints]
    exact .cons (by rw [Token.imprint?, hk]) .nil
  | @Derives.yes t hk ht => by
    rw [Expr.imprints, if_pos rfl, ← ht]
    exact .cons (by rw [Token.imprint?, hk]) .nil
  | @Derives.no t hk ht => by
    rw [Expr.imprints, if_neg (by decide), ← ht]
    exact .cons (by rw [Token.imprint?, hk]) .nil
  | @Derives.identifier t hk _ _ => by
    rw [Expr.imprints]
    exact .cons (by rw [Token.imprint?, hk]) .nil
  | @Derives.round opening closing u e ho he hc => by
    exact .skip ho (by decide) (he.leave.closed hc (by decide))
  | @Derives.call opening closing u v f es hf ho hes hc => by
    rw [Expr.imprints, List.append_assoc]
    exact hf.leave.append (.skip ho (by decide) (hes.leave.closed hc (by decide)))
  | @Derives.index opening closing u v e i he ho hi hc => by
    have hposition := hi.leave.closed hc (by decide)
    rw [Expr.imprints, List.append_assoc]
    exact he.leave.append (.cons (by rw [Token.imprint?, ho]) hposition)
  | @Derives.sign t u e ht he => by
    rw [Expr.imprints]
    exact .cons (Token.imprint_sign ht) he.leave
  | @Derives.operator l t u v x y ht hx hy => by
    rw [Expr.imprints]
    exact hx.leave.append (.cons (Token.imprint_operator ht) hy.leave)
  | .inner he => he.leave

theorem DerivesArguments.leave {u : List Token} {es : List Expr} :
    DerivesArguments u es → Leave u (Expr.allImprints es)
  | .none => by
    rw [Expr.allImprints]
    exact .nil
  | .some he hes => by
    rw [Expr.allImprints]
    exact he.leave.append hes.leave

theorem DerivesMore.leave {u : List Token} {es : List Expr} :
    DerivesMore u es → Leave u (Expr.allImprints es)
  | .none => by
    rw [Expr.allImprints]
    exact .nil
  | .some hc he hes => by
    rw [Expr.allImprints]
    exact .skip hc (by decide) (he.leave.append hes.leave)

end

mutual

/-- A statement keeps what is to be kept of its tokens, in their order. -/
theorem DerivesStmt.leave {u : List Token} {s : Stmt} : DerivesStmt u s → Leave u s.imprints
  | @DerivesStmt.ifThen t u v c p ht hc hp => by
    rw [Stmt.imprints]
    exact .cons (by rw [Token.imprint?, ht]) (hc.leave.append hp.leave)
  | @DerivesStmt.ifElse t other u v w c p a ht hc hp ho ha => by
    rw [Stmt.imprints]
    have hprimary := hc.leave.append hp.leave
    have halternative := hprimary.append (.skip ho (by decide) ha.leave)
    exact .cons (by rw [Token.imprint?, ht]) halternative
  | @DerivesStmt.forLoop t first second u v w x b c a s ht hb hfirst hc hsecond ha hs => by
    rw [Stmt.imprints]
    have hcondition := hb.leave.append (.skip hfirst (by decide) hc.leave)
    have hafter := hcondition.append (.skip hsecond (by decide) ha.leave)
    exact .cons (by rw [Token.imprint?, ht]) (hafter.append hs.leave)
  | @DerivesStmt.binding t sign u v p e ht hp hs he => by
    rw [Stmt.imprints]
    exact .skip ht (by decide) (hp.leave.append (.skip hs (by decide) he.leave))
  | @DerivesStmt.block opening closing u ss ho hss hc => by
    rw [Stmt.imprints]
    exact .cons (by rw [Token.imprint?, ho]) (hss.leave.closed hc (by decide))
  | @DerivesStmt.assign sign u v p e hp hs he => by
    rw [Stmt.imprints]
    exact hp.leave.append (.skip hs (by decide) he.leave)
  | .expr he => by
    rw [Stmt.imprints]
    exact he.leave

theorem DerivesAll.leave {u : List Token} {ss : List Stmt} :
    DerivesAll u ss → Leave u (Stmt.allImprints ss)
  | .none => by
    rw [Stmt.allImprints]
    exact .nil
  | .separator ht hss => .skip ht (by decide) hss.leave
  | .some hs hss => by
    rw [Stmt.allImprints]
    exact hs.leave.append hss.leave

end

/-- A token stream, with an end if it has none. -/
def Token.completed (tokens : List Token) : List Token :=
  match tokens.getLast? with
  | none => [Token.finish (Location.start "stdin")]
  | some t => if t.kind = .finish then tokens else tokens ++ [Token.finish t.location]

theorem Cursor.completed_eq (tokens : List Token) :
    Token.completed tokens = (ofTokens tokens).ahead ++ [(ofTokens tokens).last] := by
  unfold Token.completed ofTokens
  cases ht : tokens.getLast? with
  | none => rfl
  | some t =>
    by_cases hk : t.kind = .finish
    · simp only [hk, if_true, dif_pos]
      exact (List.dropLast_append_getLast? t ht).symm
    · simp only [if_neg hk, dif_neg hk]

/-- Of a stream that is parsed the last token, and no other one, ends it. The statements at the top
of the program, which stands for them alone or as the block of all of them, keep in the order of the
stream just what is to be kept of its tokens. -/
theorem parse_yield {tokens : List Token} {limit : Nat} {s : Stmt}
    (h : parse tokens limit = .ok s) :
    ∃ body last ss, Token.completed tokens = body ++ [last] ∧ last.kind = .finish ∧
      (∀ t ∈ body, t.kind ≠ .finish) ∧
      (ss = [s] ∨ ss.length ≠ 1 ∧ ∃ l, s = .block ss l) ∧
      Stmt.allImprints ss = (Token.completed tokens).filterMap Token.imprint? := by
  obtain ⟨ss, d, hss, hs⟩ := parse_body h
  have hall := Parse.programBody_sound (Parse.statement_sound limit limit) hss
  have hlast := (Cursor.ofTokens tokens).last_kind
  have hleave := hall.leave
  refine ⟨_, _, ss, Cursor.completed_eq tokens, hlast, hleave.unended, ?_, ?_⟩
  · exact hs.imp_right fun hblock => ⟨hblock.1, _, hblock.2⟩
  · have hnone : (Cursor.ofTokens tokens).last.imprint? = none := by
      rw [Token.imprint?, hlast]
    rw [Cursor.completed_eq, List.filterMap_append, hleave.kept]
    simp [hnone]

/-- Two statements in a stream without an end are put into a block, of which no token tells. -/
theorem parse_yield_two :
    let l (column : UInt32) : Location := ⟨"f", 1, column⟩
    let tokens : List Token := [⟨.subtract, "-", l 1⟩, ⟨.identifier, "a", l 2⟩,
      ⟨.openSquare, "[", l 3⟩, ⟨.int, "1", l 4⟩, ⟨.closeSquare, "]", l 5⟩, ⟨.semicolon, ";", l 6⟩,
      ⟨.openCurly, "\x7b", l 7⟩, ⟨.closeCurly, "\x7d", l 8⟩]
    let index := Expr.index (.identifier "a" (l 2)) (.int 1 (l 4)) (l 3)
    let s := Stmt.block [.expr (.unary "-" index (l 1)), .block [] (l 7)] (l 1)
    parse tokens 5 = .ok s ∧
      s.imprints = .openCurly (l 1) :: (Token.completed tokens).filterMap Token.imprint? ∧
      ∃ body last ss, Token.completed tokens = body ++ [last] ∧ last.kind = .finish ∧
        (∀ t ∈ body, t.kind ≠ .finish) ∧
        (ss = [s] ∨ ss.length ≠ 1 ∧ ∃ l, s = .block ss l) ∧
        Stmt.allImprints ss = (Token.completed tokens).filterMap Token.imprint? := by
  refine ⟨rfl, by decide +kernel, ?_⟩
  exact @parse_yield _ 5 _ rfl

end BlockScript
