import BlockScript.Command
import BlockScript.Proofs.Wire.Compiled

namespace BlockScript.Command

/-- Performs tasks one after the other, each with what the one before has written as its standard
input, up to the first that fails. -/
def relay (limit turns : Nat) (inputs : Inputs) : List Task → String × Except Failure Unit
  | [] => (inputs.stdin, .ok ())
  | task :: tasks =>
    match perform inputs limit turns task with
    | (stdout, .ok ()) => relay limit turns ⟨stdout, inputs.file⟩ tasks
    | failed => failed

variable {limit turns : Nat} {inputs : Inputs} {source : Option String} {file text : String}

theorem relay_ok {task : Task} {stdout : String} (tasks : List Task)
    (h : perform inputs limit turns task = (stdout, .ok ())) :
    relay limit turns inputs (task :: tasks) = relay limit turns ⟨stdout, inputs.file⟩ tasks := by
  rw [relay, h]

theorem relay_error {task : Task} {stdout : String} {failure : Failure} (tasks : List Task)
    (h : perform inputs limit turns task = (stdout, .error failure)) :
    relay limit turns inputs (task :: tasks) = (stdout, .error failure) := by
  rw [relay, h]

theorem relay_last (task : Task) :
    relay limit turns inputs [task] = perform inputs limit turns task := by
  cases h : perform inputs limit turns task with
  | mk stdout result =>
    cases result with
    | ok => exact relay_ok [] h
    | error failure => exact relay_error [] h

section

variable (hread : inputs.read source = .ok (file, text))

include hread

theorem sources_toList : inputs.sources source.toList = .ok [(file, text)] := by
  cases source with
  | none => exact congrArg (Except.map ([·])) hread
  | some name =>
    change (inputs.read (some name) >>= fun first => pure [first]) = _
    rw [hread]
    rfl

theorem lex_source :
    lex inputs source.toList false =
      (orFail none (tokenize file text)).map Token.writeStream := by
  rw [lex, sources_toList hread]
  change orFail none (tokenize file text) >>= _ = _
  cases tokenize file text <;> rfl

theorem compiled_source :
    compiled inputs limit source =
      (orFail none (tokenize file text)).bind fun tokens =>
        orFail none (BlockScript.parse tokens limit) := by
  rw [compiled, hread]
  rfl

end

theorem parse_stdin {stream : String} {files : String → Except ReadFault String}
    {tokens : List Token} (h : Token.readStream stream = .ok tokens) :
    parse ⟨stream, files⟩ limit none false =
      (orFail none (BlockScript.parse tokens limit)).map fun s => s.encode ++ "\n" := by
  change orFail _ (Token.readStream stream) >>= _ = _
  rw [h]
  change orFail none (BlockScript.parse tokens limit) >>= _ = _
  cases BlockScript.parse tokens limit <;> rfl

/-- The tasks that do what a run does in one go. -/
def stages (source : Option String) : List Task :=
  [.lex source.toList false, .parse none false, .interpret none]

theorem relay_unlexed {fault : Fault} (hread : inputs.read source = .ok (file, text))
    (ht : tokenize file text = .error fault) :
    relay limit turns inputs (stages source) = ("", .error (.fault none fault)) := by
  refine relay_error _ ?_
  rw [perform, lex_source hread, ht]
  rfl

section

variable {tokens : List Token} (hread : inputs.read source = .ok (file, text))
  (ht : tokenize file text = .ok tokens)
  (hstream : Token.readStream (Token.writeStream tokens) = .ok tokens)

include hread ht

theorem relay_lexed : relay limit turns inputs (stages source) =
    relay limit turns ⟨Token.writeStream tokens, inputs.file⟩
      [.parse none false, .interpret none] := by
  refine relay_ok _ ?_
  rw [perform, lex_source hread, ht]
  rfl

include hstream

theorem relay_unparsed {fault : Fault} (hs : BlockScript.parse tokens limit = .error fault) :
    relay limit turns inputs (stages source) = ("", .error (.fault none fault)) := by
  rw [relay_lexed hread ht]
  refine relay_error _ ?_
  rw [perform, parse_stdin hstream, hs]
  rfl

/-- What comes out of the stages is what the last makes of the encoded program. -/
theorem relay_parsed {s : Stmt} (hs : BlockScript.parse tokens limit = .ok s) :
    relay limit turns inputs (stages source) =
      perform.executed limit turns (orFail (some "invalid AST encoding in stdin")
        (Stmt.decode limit (s.encode ++ "\n"))) := by
  have hparsed : perform ⟨Token.writeStream tokens, inputs.file⟩ limit turns (.parse none false) =
      (s.encode ++ "\n", .ok ()) := by
    rw [perform, parse_stdin hstream, hs]
    rfl
  rw [relay_lexed hread ht, relay_ok _ hparsed, relay_last]
  rfl

end

/-- A source is compiled unless its text or its tokens are refused. -/
theorem compiled_cases (hread : inputs.read source = .ok (file, text)) :
    (∃ fault, tokenize file text = .error fault ∧
      compiled inputs limit source = .error (.fault none fault)) ∨
    ∃ tokens, tokenize file text = .ok tokens ∧
      ((∃ fault, BlockScript.parse tokens limit = .error fault ∧
        compiled inputs limit source = .error (.fault none fault)) ∨
      ∃ s, BlockScript.parse tokens limit = .ok s ∧ compiled inputs limit source = .ok s) := by
  rw [compiled_source hread]
  cases tokenize file text with
  | error fault => exact .inl ⟨fault, rfl, rfl⟩
  | ok tokens =>
    have hparse : ((orFail none (.ok tokens)).bind fun tokens =>
        orFail none (BlockScript.parse tokens limit)) =
        orFail none (BlockScript.parse tokens limit) := rfl
    rw [hparse]
    refine .inr ⟨tokens, rfl, ?_⟩
    cases BlockScript.parse tokens limit with
    | error fault => exact .inl ⟨fault, rfl, rfl⟩
    | ok s => exact .inr ⟨s, rfl, rfl⟩

theorem relay_failed {failure : Failure} (hread : inputs.read source = .ok (file, text))
    (hstream : ∀ tokens, tokenize file text = .ok tokens →
      Token.readStream (Token.writeStream tokens) = .ok tokens)
    (h : compiled inputs limit source = .error failure) :
    relay limit turns inputs (stages source) = ("", .error failure) := by
  rcases compiled_cases hread with ⟨fault, ht, hc⟩ | ⟨tokens, ht, ⟨fault, hs, hc⟩ | ⟨s, hs, hc⟩⟩
  · rw [h] at hc
    cases hc
    exact relay_unlexed hread ht
  · rw [h] at hc
    cases hc
    exact relay_unparsed hread ht (hstream tokens ht) hs
  · rw [h] at hc
    cases hc

theorem compiled_ok {s : Stmt} (hread : inputs.read source = .ok (file, text))
    (h : compiled inputs limit source = .ok s) :
    ∃ tokens, tokenize file text = .ok tokens ∧ BlockScript.parse tokens limit = .ok s := by
  rcases compiled_cases hread with ⟨fault, ht, hc⟩ | ⟨tokens, ht, ⟨fault, hs, hc⟩ | ⟨t, hs, hc⟩⟩
  · rw [h] at hc
    cases hc
  · rw [h] at hc
    cases hc
  · rw [h] at hc
    cases hc
    exact ⟨tokens, ht, hs⟩

/-- Stages that write their results for the next to read do what one run of the source does, if a
machine word counts its characters: the tokens and the program come through unchanged, unless the
program nests deeper than decoding may. -/
theorem stages_agree (limit : Nat) {file text : String}
    (hmark : Location.spaceMark ∉ file.toList) (hline : '\n' ∉ file.toList)
    (hlength : text.length < 2 ^ 64) :
    (∀ tokens, tokenize file text = .ok tokens →
      Token.readStream (Token.writeStream tokens) = .ok tokens ∧
      ∀ s, BlockScript.parse tokens limit = .ok s →
        ((∀ node ∈ s.nodes 1, node.level ≤ limit) → Stmt.decode limit s.encode = .ok s) ∧
        ((∃ node ∈ s.nodes 1, limit < node.level) →
          ∃ l, Stmt.decode limit s.encode = .error (.located (.tooDeep limit) l))) ∧
    ∀ (turns : Nat) (inputs : Inputs) (source : Option String),
      inputs.read source = .ok (file, text) →
      ((∀ s, compiled inputs limit source = .ok s → ∀ node ∈ s.nodes 1, node.level ≤ limit) →
        relay limit turns inputs (stages source) = perform inputs limit turns (.run source)) ∧
      (∀ s, compiled inputs limit source = .ok s → (∃ node ∈ s.nodes 1, limit < node.level) →
        ∃ l, relay limit turns inputs (stages source) =
          ("", .error (.fault (some "invalid AST encoding in stdin")
            (.located (.tooDeep limit) l)))) := by
  have hstream tokens (ht : tokenize file text = .ok tokens) :=
    readStream_tokenize hmark hline ht
  constructor
  · intro tokens ht
    refine ⟨hstream tokens ht, ?_⟩
    intro s hs
    have hencoded : s.encode = s.encode ++ "" := String.append_empty.symm
    rw [hencoded]
    constructor
    · exact decode_compiled_ok hmark hline hlength ht hs (.inl rfl)
    · exact decode_compiled_deep hmark hline hlength ht hs (.inl rfl)
  · intro turns inputs source hread
    constructor
    · intro hlevel
      rw [perform]
      cases hc : compiled inputs limit source with
      | error failure => exact relay_failed hread hstream hc
      | ok s =>
        obtain ⟨tokens, ht, hs⟩ := compiled_ok hread hc
        have hdecoded := decode_compiled_ok hmark hline hlength ht hs (.inr rfl) (hlevel s hc)
        rw [relay_parsed hread ht (hstream tokens ht) hs, hdecoded]
        rfl
    · intro s hc hlevel
      obtain ⟨tokens, ht, hs⟩ := compiled_ok hread hc
      obtain ⟨l, hl⟩ := decode_compiled_deep hmark hline hlength ht hs (.inr rfl) hlevel
      refine ⟨l, ?_⟩
      rw [relay_parsed hread ht (hstream tokens ht) hs, hl]
      rfl

theorem stages_agree_loop :
    let inputs (text : String) : Inputs := ⟨text, fun _ => .error .missing⟩
    let loop := inputs "for var i = 0; i < 2; i = i + 1 { println(string(i)) }"
    let deep := inputs "1+2+3+4"
    Location.spaceMark ∉ "stdin".toList ∧ '\n' ∉ "stdin".toList ∧
    loop.stdin.length < 2 ^ 64 ∧ deep.stdin.length < 2 ^ 64 ∧
    (relay 9 9 loop (stages none)).1 = "0\n1\n" ∧
    ∃ l, relay 3 9 deep (stages none) =
      ("", .error (.fault (some "invalid AST encoding in stdin") (.located (.tooDeep 3) l))) := by
  intro inputs loop deep
  have hmark : Location.spaceMark ∉ "stdin".toList := by decide
  have hline : '\n' ∉ "stdin".toList := by decide
  have hloop : loop.stdin.length < 2 ^ 64 := by decide
  have hdeep : deep.stdin.length < 2 ^ 64 := by decide
  have hlevel : (compiled loop 9 none).toOption.all fun s => (s.nodes 1).all (·.level ≤ 9) := by
    decide +kernel
  have hlevels : (compiled deep 3 none).toOption.any fun s => (s.nodes 1).any (3 < ·.level) := by
    decide +kernel
  refine ⟨hmark, hline, hloop, hdeep, ?_, ?_⟩
  · rw [((stages_agree 9 hmark hline hloop).2 9 loop none rfl).1 fun s hs => ?_]
    · decide +kernel
    · rw [hs] at hlevel
      simpa [Except.toOption] using hlevel
  · cases hs : compiled deep 3 none with
    | error failure =>
      rw [hs] at hlevels
      cases hlevels
    | ok s =>
      rw [hs] at hlevels
      refine ((stages_agree 3 hmark hline hdeep).2 9 deep none rfl).2 s hs ?_
      simpa [Except.toOption] using hlevels

end BlockScript.Command
