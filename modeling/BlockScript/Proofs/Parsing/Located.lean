import BlockScript.Proofs.Parsing.Congruence
import BlockScript.Proofs.Parsing.Moved
import BlockScript.Proofs.Parsing.Steps

namespace BlockScript

/-- A fault at the place of one of some tokens. -/
def Fault.AtToken (ts : List Token) (fault : Fault) : Prop :=
  ∃ cause, ∃ t ∈ ts, fault = .located cause t.location

/-- Keeps the places of some tokens and no other place. -/
def Location.elsewhere (ts : List Token) (l : Location) : Location :=
  if l ∈ ts.map Token.location then l else { l with column := l.column + 1 }

namespace Location

theorem elsewhere_of_mem {ts : List Token} {t : Token} (h : t ∈ ts) :
    elsewhere ts t.location = t.location :=
  if_pos (List.mem_map_of_mem h)

theorem mem_of_elsewhere {ts : List Token} {l : Location} (h : elsewhere ts l = l) :
    ∃ t ∈ ts, l = t.location := by
  unfold elsewhere at h
  split at h
  · rename_i hmem
    obtain ⟨t, ht, hl⟩ := List.mem_map.1 hmem
    exact ⟨t, ht, hl.symm⟩
  · have hcolumn := congrArg (fun k => k.column.toNat) h
    have hword := l.column.toNat_lt
    simp only [UInt32.toNat_add, UInt32.toNat_ofNat] at hcolumn
    omega

end Location

theorem Token.map_elsewhere (ts : List Token) :
    ts.map (Token.moved (Location.elsewhere ts)) = ts := by
  have hkept : ∀ t ∈ ts, t.moved (Location.elsewhere ts) = t := by
    intro t ht
    unfold Token.moved
    rw [Location.elsewhere_of_mem ht]
  rw [List.map_congr_left hkept, List.map_id']

namespace Parse

/-- A step that fails does so at some place. -/
def Placed {α : Type} (x : Parse α) : Prop :=
  ∀ c fault d, x c = .error fault d → ∃ cause l, fault = .located cause l

theorem placed_fail {α : Type} (cause : Cause) (l : Location) :
    Placed (fail cause l : Parse α) := by
  intro c fault d h
  cases h
  exact ⟨cause, l, rfl⟩

theorem placed_bind {α β : Type} {x : Parse α} {f : α → Parse β} (hx : Placed x)
    (hf : ∀ a, Placed (f a)) : Placed (x >>= f) := by
  intro c fault d h
  rw [bind_apply] at h
  cases hr : x c with
  | ok a e =>
    rw [hr] at h
    exact hf a e fault d h
  | error first e =>
    rw [hr] at h
    cases h
    exact hx c _ _ hr

theorem placed_tooDeep {α : Type} (limit : Nat) : Placed (tooDeep limit : Parse α) := by
  intro c fault d h
  cases h
  exact ⟨_, _, rfl⟩

theorem placed_congruence (limit : Nat) : Congruence limit fun {_} x _ => Placed x where
  value a := by
    intro c fault d h
    cases h
  failure := placed_fail
  chain := placed_bind
  place := by
    intro c fault d h
    cases h
  take := by
    intro c fault d h
    cases h
  deep _ := placed_tooDeep limit

theorem placed_program (limit room : Nat) : Placed (program (statement limit room)) := by
  have h := placed_congruence limit
  have hs : Placed (statement limit room) := statement_congr h limit (Nat.le_refl room)
  exact @program_congr limit (fun {_} x _ => Placed x) h (statement limit room)
    (statement limit room) hs

end Parse

/-- What keeps tokens from being parsed is told at one of them. -/
theorem parse_located {tokens : List Token} (hne : tokens ≠ []) {limit : Nat} {fault : Fault}
    (h : parse tokens limit = .error fault) : fault.AtToken tokens := by
  -- a fault moves as the tokens do, so one that stays where they stay is at one of them
  have hmoved := parse_moved (Location.elsewhere tokens) hne limit
  rw [Token.map_elsewhere, h] at hmoved
  have hstays : fault = fault.moved (Location.elsewhere tokens) := Except.error.inj hmoved
  obtain ⟨cause, l, rfl⟩ : ∃ cause l, fault = .located cause l := by
    unfold parse Parser.program Parser.run at h
    split at h
    · cases h
    · rename_i first c hr
      cases h
      exact Parse.placed_program _ _ _ _ _ hr
  obtain ⟨t, ht, hl⟩ := Location.mem_of_elsewhere (Fault.located.inj hstays).2.symm
  exact ⟨cause, t, ht, by rw [hl]⟩

end BlockScript
