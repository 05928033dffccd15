import BlockScript.Proofs.Wire.Decoded
import BlockScript.Proofs.Wire.Floats
import BlockScript.Proofs.Wire.RoundTrip
import BlockScript.Proofs.Wire.Tokens

namespace BlockScript

/-- Encoding what was decoded settles in one step, however the text was spelled: tokens come back as
they are, and so does a tree up to its floats that are no number, with the same encoding. -/
theorem reencoding_settles :
    (∀ (text : String) (ts : List Token), Token.readStream text = .ok ts →
      Token.readStream (Token.writeStream ts) = .ok ts) ∧
    ∀ (limit : Nat) (text : String) (s : Stmt), Stmt.decode limit text = .ok s →
      ∃ t, Stmt.decode limit s.encode = .ok t ∧ t = s.mapFloats Single.carried ∧
        t.encode = s.encode := by
  constructor
  · intro text ts h
    have hfiles := Token.clean_files h
    rw [Token.readStream_writeStream fun t ht => (hfiles t ht).2,
      List.map_congr_left fun t ht => Token.carried_eq (hfiles t ht).1, List.map_id']
  · intro limit text s h
    have hnode (node : Node) (hn : node ∈ s.nodes 1) := Stmt.decoded_node h hn
    have hlevel : Node.firstDeeper limit (s.nodes 1) = none :=
      Node.firstDeeper_eq_none.2 fun node hn => (hnode node hn).1
    have hcarries (node : Node) (hn : node ∈ s.nodes 1) : node.Carries Single.carried :=
      ⟨Location.carried_eq (hnode node hn).2.2.1, fun _ _ _ => rfl⟩
    have hcarried := s.carried_eq_mapFloats 1 hcarries
    refine ⟨s.carried, ?_, hcarried, s.encode_carried⟩
    rw [s.decode_encode limit (fun node hn => (hnode node hn).2.1)
      fun node hn => (hnode node hn).2.2.2, hlevel]

theorem reencoding_settles_spellings :
    let stream := "Identifier x\ty a\u200Bb +1 002\r\n\n"
    let text := "Scope \x7b 2 a\u200Bb +1 1\r\nFloatLiteral -nan +0 f 01 2\n" ++
      "StringLiteral x\ty 0 f 1 3\n\n"
    let settled := "Scope \x7b 2 a\u200Bb 1 1\nFloatLiteral NaN 0 f 1 2\n" ++
      "StringLiteral x\\ty 0 f 1 3"
    (∃ ts, Token.readStream stream = .ok ts ∧
      Token.writeStream ts = "Identifier x\\ty a\u200Bb 1 2\n" ∧
      Token.readStream (Token.writeStream ts) = .ok ts) ∧
    ∃ s t, Stmt.decode 2 text = .ok s ∧ s.encode = settled ∧
      Stmt.decode 2 s.encode = .ok t ∧ t = s.mapFloats Single.carried ∧ t.encode = s.encode := by
  intro stream text settled
  have hstream : (Token.readStream stream).toOption.map Token.writeStream =
      some "Identifier x\\ty a\u200Bb 1 2\n" := by decide +kernel
  have htext : (Stmt.decode 2 text).toOption.map Stmt.encode = some settled := by
    decide +kernel
  constructor
  · cases hts : Token.readStream stream with
    | error fault =>
      rw [hts] at hstream
      cases hstream
    | ok ts =>
      rw [hts] at hstream
      exact ⟨ts, rfl, Option.some.inj hstream, reencoding_settles.1 stream ts hts⟩
  · cases hs : Stmt.decode 2 text with
    | error fault =>
      rw [hs] at htext
      cases htext
    | ok s =>
      rw [hs] at htext
      obtain ⟨t, ht, hfloats, hencode⟩ := reencoding_settles.2 2 text s hs
      exact ⟨s, t, rfl, Option.some.inj htext, ht, hfloats, hencode⟩

end BlockScript
