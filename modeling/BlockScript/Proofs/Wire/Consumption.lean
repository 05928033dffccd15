import BlockScript.Proofs.Wire.Congruence

namespace BlockScript

/-- A line that announces a node. -/
def Header.Announced (line : String) : Prop := ∃ h, ofLine line = .ok h

namespace Decode

variable {α β : Type}

/-- A step that succeeds has taken lines which all announce a node. -/
def Consumes (step : Decode α) : Prop :=
  ∀ listing value left, step listing = .ok (value, left) →
    ∃ used, listing.rest = used ++ left.rest ∧ ∀ line ∈ used, Header.Announced line

theorem consumes_pure (value : α) : Consumes (pure value : Decode α) := by
  rintro listing a left ⟨⟩
  exact ⟨[], rfl, nofun⟩

theorem consumes_throw (fault : Fault) : Consumes (throw fault : Decode α) := nofun

theorem consumes_bind {x : Decode α} {f : α → Decode β} (hx : Consumes x)
    (hf : ∀ a, Consumes (f a)) : Consumes (x >>= f) := by
  intro listing b left h
  change ((x listing).bind fun r => f r.1 r.2) = _ at h
  cases hr : x listing with
  | error fault =>
    rw [hr] at h
    cases h
  | ok r =>
    rw [hr] at h
    obtain ⟨used, hu, hl⟩ := hx listing r.1 r.2 hr
    obtain ⟨more, hm, hk⟩ := hf r.1 r.2 b left h
    refine ⟨used ++ more, by rw [hu, hm, List.append_assoc], fun line hline => ?_⟩
    exact (List.mem_append.1 hline).elim (hl line) (hk line)

theorem consumes_header : Consumes header := by
  intro listing p left h
  unfold header at h
  split at h
  · cases h
  · rename_i line rest hrest
    split at h
    · cases h
    · rename_i announced hline
      cases h
      refine ⟨[line], hrest, fun k hk => ?_⟩
      rw [List.mem_singleton.1 hk]
      exact ⟨announced, hline⟩

theorem consumes_congruence (limit : Nat) : Congruence limit fun {_} step _ => Consumes step where
  value := consumes_pure
  failure := consumes_throw
  chain := consumes_bind
  take := consumes_header
  deep _ _ := consumes_throw _

theorem consumes_statement (limit room : Nat) : Consumes (statement limit room) :=
  statement_congr (consumes_congruence limit) limit (Nat.le_refl room)

theorem blankFrom_ok {number : Nat} {rest : List String} (h : blankFrom number rest = .ok ()) :
    ∀ line ∈ rest, Text.isBlankLine line = true := by
  induction rest generalizing number with
  | nil => exact nofun
  | cons line rest ih =>
    unfold blankFrom at h
    split at h
    · rename_i hb
      exact List.forall_mem_cons.2 ⟨hb, ih h⟩
    · cases h

/-- Every line of a text that is decoded announces a node or is blank. -/
theorem whole_ok {step : Decode α} (hs : Consumes step) {text : String} {value : α}
    (h : whole step text = .ok value) {line : String} (hl : line ∈ Text.lines text) :
    Header.Announced line ∨ Text.isBlankLine line = true := by
  unfold whole at h
  split at h
  · cases h
  · rename_i value' left hr
    obtain ⟨used, hu, hk⟩ := hs _ _ _ hr
    cases hb : blankFrom left.number left.rest with
    | error fault =>
      rw [hb] at h
      cases h
    | ok =>
      change Text.lines text = _ at hu
      rw [hu] at hl
      exact (List.mem_append.1 hl).imp (hk line) (blankFrom_ok hb line)

end Decode
end BlockScript
