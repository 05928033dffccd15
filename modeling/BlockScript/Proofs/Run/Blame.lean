import BlockScript.Proofs.Lexing.Failures
import BlockScript.Proofs.Lexing.Pieces
import BlockScript.Proofs.Parsing.Located
import BlockScript.Proofs.Parsing.Origins
import BlockScript.Proofs.Run.Activity
import BlockScript.Proofs.Run.Operations
import BlockScript.Proofs.Run.Steps

namespace BlockScript

/-- A callee is refused at the place of the call or at its own. -/
theorem Builtin.resolve_place {callee : Expr} {count : Nat} {l : Location} {fault : Fault}
    (h : resolve callee count l = .error fault) :
    ∃ cause, fault = .located cause l ∨ fault = .located cause callee.location := by
  have hresolution := resolve_resolution callee count l
  rw [h] at hresolution
  cases hresolution with
  | unknown feature => exact ⟨_, .inl rfl⟩
  | miscounted name arity => exact ⟨_, .inl rfl⟩
  | nameless => exact ⟨_, .inr rfl⟩

namespace Run

variable {α β : Type} {σ : Settings} {places : Location → Prop}

/-- A step that fails with a fault, in any machine, tells one of these places. -/
def Blames (places : Location → Prop) (x : Run α) : Prop :=
  ∀ m fault n, x m = .error (.fault fault) n → ∃ cause l, fault = .located cause l ∧ places l

theorem blames_pure (a : α) : Blames places (pure a : Run α) := by
  intro m fault n h
  cases h

theorem blames_fail (cause : Cause) {l : Location} (hl : places l) :
    Blames places (fail (.located cause l) : Run α) := by
  intro m fault n h
  cases h
  exact ⟨cause, l, rfl, hl⟩

theorem blames_located {l : Location} (hl : places l) (r : Except Cause α) :
    Blames places (located l r) := by
  cases r with
  | ok value => exact blames_pure value
  | error cause => exact blames_fail cause hl

theorem blames_bind {x : Run α} {f : α → Run β} (hx : Blames places x)
    (hf : ∀ a, Blames places (f a)) : Blames places (x >>= f) := by
  intro m fault n h
  rw [bind_apply] at h
  cases hr : x m with
  | ok a k =>
    rw [hr] at h
    exact hf a k fault n h
  | error halt k =>
    rw [hr] at h
    cases h
    exact hx m _ _ hr

theorem of_leaving {f : Machine → Machine} {r : EStateM.Result Halt Machine α} {halt : Halt}
    {n : Machine} (h : leaving f r = .error halt n) : ∃ k, r = .error halt k := by
  cases r with
  | ok a k => cases h
  | error first k =>
    cases h
    exact ⟨k, rfl⟩

/-- Where a level is missing, the place of the node is told. -/
theorem blames_within {l : Location} (hl : places l) {x : Run α} (hx : Blames places x) :
    Blames places (within σ l x) := by
  intro m fault n h
  rw [within_apply] at h
  split at h
  · obtain ⟨k, hk⟩ := of_leaving h
    exact hx _ _ _ hk
  · cases h
    exact ⟨_, l, rfl, hl⟩

theorem blames_inBlock {x : Run α} (hx : Blames places x) : Blames places (inBlock x) := by
  intro m fault n h
  rw [inBlock_apply] at h
  obtain ⟨k, hk⟩ := of_leaving h
  exact hx _ _ _ hk

theorem blames_print (text : String) : Blames places (print text) := by
  intro m fault n h
  cases h

/-- Reading a variable tells the place of its name, wherever its value was made. -/
theorem blames_read (name : String) {l : Location} (hl : places l) :
    Blames places (read σ name l) := by
  intro m fault n h
  unfold read at h
  split at h
  · cases h
  · cases h
    exact ⟨_, l, rfl, hl⟩

theorem blames_assign (name : String) (value : Expr) : Blames places (assign σ name value) := by
  intro m fault n h
  cases h

theorem blames_call (b : Builtin) (arguments : List Expr) {l : Location} (hl : places l) :
    Blames places (call b arguments l) := by
  refine blames_bind (blames_located hl _) fun effect => ?_
  exact blames_bind (blames_print effect.printed) fun _ => blames_pure effect.value

theorem blames_resolve {callee : Expr} (hc : places callee.location) (count : Nat) {l : Location}
    (hl : places l) : Blames places (resolve callee count l) := by
  unfold resolve
  cases hr : Builtin.resolve callee count l with
  | ok b => exact blames_pure b
  | error fault =>
    obtain ⟨cause, rfl | rfl⟩ := Builtin.resolve_place hr
    · exact blames_fail cause hl
    · exact blames_fail cause hc

theorem blames_repeatWhile {c : Run Bool} {x : Run Unit} (hc : Blames places c)
    (hx : Blames places x) (turns : Nat) : Blames places (repeatWhile c x turns) := by
  induction turns with
  | zero =>
    intro m fault n h
    cases h
  | succ turns ih =>
    refine blames_bind hc fun again => ?_
    cases again with
    | false => exact blames_pure ()
    | true => exact blames_bind hx fun _ => ih

end Run

/-- All nodes stand at some of these places. -/
def Node.AllAt (places : Location → Prop) (nodes : List Node) : Prop :=
  ∀ node ∈ nodes, places node.part.location

theorem Expr.location_at {places : Location → Prop} {e : Expr} {level : Nat}
    (h : Node.AllAt places (e.nodes level)) : places e.location := by
  rw [e.nodes_eq level] at h
  exact h _ (List.mem_cons_self ..)

theorem Stmt.location_at {places : Location → Prop} {s : Stmt} {level : Nat}
    (h : Node.AllAt places (s.nodes level)) : places s.location := by
  rw [s.nodes_eq level] at h
  exact h _ (List.mem_cons_self ..)

namespace Run

variable {places : Location → Prop}

mutual

/-- What fails when an expression is evaluated is told at one of its nodes, whatever the variables
hold. -/
theorem blames_evaluate (σ : Settings) : ∀ (e : Expr) (level : Nat),
    Node.AllAt places (e.nodes level) → Blames places (evaluate σ e)
  | .int value l, level, h => by
    have hl : places l := Expr.location_at h
    simp only [evaluate]
    exact blames_within hl (blames_pure _)
  | .float value l, level, h => by
    have hl : places l := Expr.location_at h
    simp only [evaluate]
    exact blames_within hl (blames_pure _)
  | .string value l, level, h => by
    have hl : places l := Expr.location_at h
    simp only [evaluate]
    exact blames_within hl (blames_pure _)
  | .bool value l, level, h => by
    have hl : places l := Expr.location_at h
    simp only [evaluate]
    exact blames_within hl (blames_pure _)
  | .void l, level, h => by
    have hl : places l := Expr.location_at h
    simp only [evaluate]
    exact blames_within hl (blames_pure _)
  | .identifier name l, level, h => by
    have hl : places l := Expr.location_at h
    simp only [evaluate]
    exact blames_within hl (blames_read name hl)
  | .call callee arguments l, level, h => by
    have hl : places l := Expr.location_at h
    simp only [Expr.nodes, Node.AllAt, List.forall_mem_cons, List.forall_mem_append] at h
    have hcallee : places callee.location := Expr.location_at h.2.1
    have hargs := blames_evaluateAll σ arguments (level + 1) h.2.2
    simp only [evaluate]
    refine blames_within hl (blames_bind (blames_resolve hcallee _ hl) fun b => ?_)
    exact blames_bind hargs fun values => blames_call b values hl
  | .index subject position l, level, h => by
    have hl : places l := Expr.location_at h
    simp only [evaluate]
    exact blames_within hl (blames_fail _ hl)
  | .binary op x y l, level, h => by
    have hl : places l := Expr.location_at h
    simp only [Expr.nodes, Node.AllAt, List.forall_mem_cons, List.forall_mem_append] at h
    have hx := blames_evaluate σ x (level + 1) h.2.1
    have hy := blames_evaluate σ y (level + 1) h.2.2
    simp only [evaluate]
    refine blames_within hl (blames_bind hx fun v => blames_bind hy fun w => ?_)
    exact blames_located hl _
  | .unary op x l, level, h => by
    have hl : places l := Expr.location_at h
    simp only [Expr.nodes, Node.AllAt, List.forall_mem_cons] at h
    have hx := blames_evaluate σ x (level + 1) h.2
    simp only [evaluate]
    exact blames_within hl (blames_bind hx fun v => blames_located hl _)

theorem blames_evaluateAll (σ : Settings) : ∀ (es : List Expr) (level : Nat),
    Node.AllAt places (Expr.allNodes es level) → Blames places (evaluateAll σ es)
  | [], _, _ => by
    simp only [evaluateAll]
    exact blames_pure []
  | e :: es, level, h => by
    simp only [Expr.allNodes, Node.AllAt, List.forall_mem_append] at h
    have he := blames_evaluate σ e level h.1
    have hes := blames_evaluateAll σ es level h.2
    simp only [evaluateAll]
    exact blames_bind he fun value => blames_bind hes fun values => blames_pure _

end

theorem blames_condition (σ : Settings) (context : String) {e : Expr} {level : Nat}
    (h : Node.AllAt places (e.nodes level)) : Blames places (condition σ context e) := by
  refine blames_bind (blames_evaluate σ e level h) fun value => ?_
  cases value with
  | bool b l => exact blames_pure b
  | _ => exact blames_fail _ (Expr.location_at h)

theorem blames_assignTo (σ : Settings) {place value : Expr} (hp : places place.location)
    (hv : Blames places (evaluate σ value)) : Blames places (assignTo σ place value) := by
  cases place with
  | identifier name l => exact blames_bind hv fun v => blames_assign name v
  | _ => exact blames_fail _ hp

mutual

/-- What fails when a statement is run is told at one of its nodes, whatever the variables hold. -/
theorem blames_execute (σ : Settings) : ∀ (s : Stmt) (level : Nat),
    Node.AllAt places (s.nodes level) → Blames places (execute σ s)
  | .ifThen c primary l, level, h => by
    have hl : places l := Stmt.location_at h
    simp only [Stmt.nodes, Node.AllAt, List.forall_mem_cons, List.forall_mem_append] at h
    have hc := blames_condition σ "if condition" h.2.1
    have hprimary := blames_execute σ primary (level + 1) h.2.2
    simp only [execute]
    refine blames_within hl (blames_inBlock (blames_bind hc fun b => ?_))
    cases b with
    | false => exact blames_pure ()
    | true => exact hprimary
  | .ifElse c primary alternative l, level, h => by
    have hl : places l := Stmt.location_at h
    simp only [Stmt.nodes, Node.AllAt, List.forall_mem_cons, List.forall_mem_append] at h
    have hc := blames_condition σ "if condition" h.2.1
    have hprimary := blames_execute σ primary (level + 1) h.2.2.1
    have halternative := blames_execute σ alternative (level + 1) h.2.2.2
    simp only [execute]
    refine blames_within hl (blames_inBlock (blames_bind hc fun b => ?_))
    cases b with
    | false => exact halternative
    | true => exact hprimary
  | .forLoop before c after body l, level, h => by
    have hl : places l := Stmt.location_at h
    simp only [Stmt.nodes, Node.AllAt, List.forall_mem_cons, List.forall_mem_append] at h
    have hbefore := blames_execute σ before (level + 1) h.2.1
    have hc := blames_condition σ "for condition" h.2.2.1
    have hafter := blames_execute σ after (level + 1) h.2.2.2.1
    have hbody := blames_execute σ body (level + 1) h.2.2.2.2
    simp only [execute]
    refine blames_within hl (blames_inBlock (blames_bind hbefore fun _ => ?_))
    exact blames_repeatWhile hc (blames_bind hbody fun _ => hafter) σ.turns
  | .assign place value l, level, h => by
    have hl : places l := Stmt.location_at h
    simp only [Stmt.nodes, Node.AllAt, List.forall_mem_cons, List.forall_mem_append] at h
    have hplace : places place.location := Expr.location_at h.2.1
    have hvalue := blames_evaluate σ value (level + 1) h.2.2
    simp only [execute]
    exact blames_within hl (blames_assignTo σ hplace hvalue)
  | .block body l, level, h => by
    have hl : places l := Stmt.location_at h
    simp only [Stmt.nodes, Node.AllAt, List.forall_mem_cons] at h
    have hbody := blames_executeAll σ body (level + 1) h.2
    simp only [execute]
    exact blames_within hl (blames_inBlock hbody)
  | .expr e, level, h => by
    have hl : places e.location := Stmt.location_at h
    have he := blames_evaluate σ e level h
    simp only [execute]
    exact blames_within hl (blames_bind he fun _ => blames_pure ())

theorem blames_executeAll (σ : Settings) : ∀ (ss : List Stmt) (level : Nat),
    Node.AllAt places (Stmt.allNodes ss level) → Blames places (executeAll σ ss)
  | [], _, _ => by
    simp only [executeAll]
    exact blames_pure ()
  | s :: ss, level, h => by
    simp only [Stmt.allNodes, Node.AllAt, List.forall_mem_append] at h
    have hs := blames_execute σ s level h.1
    have hss := blames_executeAll σ ss level h.2
    simp only [executeAll]
    exact blames_bind hs fun _ => hss

end

end Run

/-- The nodes of a statement or an expression. -/
def Phrase.nodes : Phrase → List Node
  | .stmt s => s.nodes 1
  | .expr e => e.nodes 1

/-- A fault at the place of one of some nodes. -/
def Fault.AtNode (nodes : List Node) (fault : Fault) : Prop :=
  ∃ cause, ∃ node ∈ nodes, fault = .located cause node.part.location

namespace Machine

theorem apply_blames {α : Type} {nodes : List Node} {x : Run α}
    (hx : ∀ places, Node.AllAt places nodes → Run.Blames places x) (m : Machine) {fault : Fault}
    (h : (m.apply x).outcome = .error (.fault fault)) : fault.AtNode nodes := by
  unfold apply at h
  cases hr : x m with
  | ok a n =>
    rw [hr] at h
    cases h
  | error halt n =>
    rw [hr] at h
    cases h
    have hnodes : Node.AllAt (fun l => ∃ node ∈ nodes, l = node.part.location) nodes :=
      fun node hn => ⟨node, hn, rfl⟩
    obtain ⟨cause, l, rfl, node, hn, rfl⟩ := hx _ hnodes m fault n hr
    exact ⟨cause, node, hn, rfl⟩

theorem run_blames (σ : Settings) (m : Machine) {s : Stmt} {fault : Fault}
    (h : (m.run σ s).outcome = .error (.fault fault)) : fault.AtNode (s.nodes 1) :=
  apply_blames (fun _ hs => Run.blames_execute σ s 1 hs) m h

theorem evaluate_blames (σ : Settings) (m : Machine) {e : Expr} {fault : Fault}
    (h : (m.evaluate σ e).outcome = .error (.fault fault)) : fault.AtNode (e.nodes 1) :=
  apply_blames (fun _ he => Run.blames_evaluate σ e 1 he) m h

theorem answer_blames (σ : Settings) (m : Machine) {p : Phrase} {fault : Fault}
    (h : (m.answer σ p).outcome = .error (.fault fault)) : fault.AtNode p.nodes := by
  cases p with
  | stmt s =>
    apply run_blames σ m
    cases hr : (m.run σ s).outcome with
    | ok value =>
      simp only [answer, hr] at h
      cases h
    | error halt =>
      simp only [answer, hr] at h
      cases h
      rfl
  | expr e =>
    apply evaluate_blames σ m
    cases hr : (m.evaluate σ e).outcome with
    | ok value =>
      simp only [answer, hr] at h
      cases h
    | error halt =>
      simp only [answer, hr] at h
      cases h
      rfl

/-- In a session, each fault is told at a node of the phrase that failed, though variables may hold
values of earlier phrases. -/
theorem session_blames (σ : Settings) (m : Machine) (ps : List Phrase) :
    List.Forall₂ (fun p r => ∀ fault, r.outcome = .error (.fault fault) → fault.AtNode p.nodes) ps
      (m.session σ ps) := by
  induction ps generalizing m with
  | nil => exact .nil
  | cons p ps ih => exact .cons (fun _ h => answer_blames σ m h) (ih _)

end Machine

/-- Every fault of a program tells a place in it. Where a text is no list of tokens, this is behind
the piece on which the automaton stopped; what goes wrong later is told at one of the tokens, where
the nodes of the program stand as well. In a session, it is told at a node of the failing phrase. -/
theorem errors_located (file text : String) (limit : Nat) :
    (∀ n fault, .error fault ∈ (Source.ofText file text).cuts n →
      Source.StoppedAt file text.toList fault) ∧
    (∀ fault, tokenize file text = .error fault → Source.StoppedAt file text.toList fault) ∧
    (∀ tokens, tokenize file text = .ok tokens →
      (∀ fault, parse tokens limit = .error fault → fault.AtToken tokens) ∧
      ∀ s, parse tokens limit = .ok s →
        (∀ node ∈ s.nodes 1, ∃ t ∈ tokens, node.part.location = t.location) ∧
        ∀ σ m fault, (Machine.run σ m s).outcome = .error (.fault fault) →
          fault.AtToken tokens) ∧
    ∀ σ m ps, List.Forall₂
      (fun p r => ∀ fault, r.outcome = .error (.fault fault) → fault.AtNode p.nodes) ps
      (Machine.session σ m ps) := by
  refine ⟨fun n fault h => Source.cuts_stopped (.start file text) n h,
    fun fault h => Source.tokenize_stopped h, ?_, Machine.session_blames⟩
  intro tokens ht
  obtain ⟨-, init, last, rfl, hlast, -⟩ := Source.tokenize_pieces ht
  refine ⟨fun fault h => parse_located (by simp) h, ?_⟩
  intro s hs
  have hnodes : ∀ node ∈ s.nodes 1, ∃ t ∈ init ++ [last], node.part.location = t.location := by
    intro node hn
    exact (parse_nodes hlast hs node hn).1.located
  refine ⟨hnodes, ?_⟩
  intro σ m fault h
  obtain ⟨cause, node, hn, rfl⟩ := Machine.run_blames σ m h
  obtain ⟨t, ht, hl⟩ := hnodes node hn
  exact ⟨cause, t, ht, by rw [hl]⟩

/-- A division by what an earlier phrase stored fails at the division. -/
theorem errors_located_stages :
    let place (file : String) (column : UInt32) : Location := ⟨file, 1, column⟩
    let opened : List Token := [⟨.openRound, "(", place "f" 1⟩, Token.finish (place "f" 2)]
    let name : List Token := [⟨.identifier, "x", place "f" 1⟩, Token.finish (place "f" 2)]
    let read : Stmt := .expr (.identifier "x" (place "f" 1))
    let unended : Fault := .located (.noExpression "EOF") (place "f" 2)
    let undeclared : Fault := .located (.undeclared "x") (place "f" 1)
    let store : Phrase := .stmt
      (.assign (.identifier "x" (place "a" 5)) (.int 0 (place "a" 9)) (place "a" 1))
    let divide : Phrase := .expr
      (.binary "/" (.int 1 (place "b" 1)) (.identifier "x" (place "b" 3)) (place "b" 2))
    let divided : Fault := .located .divisionByZero (place "b" 2)
    Source.StoppedAt "f" "x 1.".toList (.located .noToken (place "f" 5)) ∧
    (tokenize "f" "(" = .ok opened ∧ parse opened 9 = .error unended ∧ unended.AtToken opened) ∧
    (tokenize "f" "x" = .ok name ∧ parse name 9 = .ok read ∧
      (Machine.run ⟨9, 9, .outermostFirst⟩ Machine.fresh read).outcome =
        .error (.fault undeclared) ∧ undeclared.AtToken name) ∧
    ∃ first second, Machine.session ⟨9, 9, .outermostFirst⟩ Machine.fresh [store, divide] =
        [first, second] ∧
      second.outcome = .error (.fault divided) ∧ divided.AtNode divide.nodes := by
  intro place opened name read unended undeclared store divide divided
  have hlex : tokenize "f" "x 1." = .error (.located .noToken (place "f" 5)) := by rfl
  have hopened : tokenize "f" "(" = .ok opened := by rfl
  have hunended : parse opened 9 = .error unended := by rfl
  have hname : tokenize "f" "x" = .ok name := by rfl
  have hread : parse name 9 = .ok read := by rfl
  have hrun : (Machine.run ⟨9, 9, .outermostFirst⟩ Machine.fresh read).outcome =
      .error (.fault undeclared) := by rfl
  refine ⟨(errors_located "f" "x 1." 9).2.1 _ hlex, ⟨hopened, hunended, ?_⟩,
    ⟨hname, hread, hrun, ?_⟩, _, _, rfl, rfl, ?_⟩
  · exact ((errors_located "f" "(" 9).2.2.1 opened hopened).1 unended hunended
  · exact (((errors_located "f" "x" 9).2.2.1 name hname).2 read hread).2 _ _ undeclared hrun
  · have h := (errors_located "f" "" 9).2.2.2 ⟨9, 9, .outermostFirst⟩ Machine.fresh [store, divide]
    cases h with
    | cons _ h =>
      cases h with
      | cons h _ => exact h divided rfl

end BlockScript
