import Mathlib.Data.List.Basic
import BlockScript.Program.Parsing

namespace BlockScript

namespace Cursor

/-- The tokens that lie between two places of a stream. -/
def Spans (c : Cursor) (used : List Token) (d : Cursor) : Prop :=
  c.ahead = used ++ d.ahead ∧ c.last = d.last

theorem eq_of_ahead {c d : Cursor} (ha : c.ahead = d.ahead) (hl : c.last = d.last) : c = d := by
  cases c
  cases d
  congr

namespace Spans

variable {c d e : Cursor} {u v : List Token}

theorem refl (c : Cursor) : c.Spans [] c := ⟨rfl, rfl⟩

theorem trans (hc : c.Spans u d) (hd : d.Spans v e) : c.Spans (u ++ v) e :=
  ⟨by rw [hc.1, hd.1, List.append_assoc], hc.2.trans hd.2⟩

theorem unique (hd : c.Spans u d) (he : c.Spans u e) : d = e :=
  eq_of_ahead (List.append_cancel_left (hd.1.symm.trans he.1)) (hd.2.symm.trans he.2)

theorem length (h : c.Spans u d) : c.ahead.length = u.length + d.ahead.length := by
  rw [h.1, List.length_append]

/-- A place between the two. -/
def mid (c : Cursor) (u : List Token) : Cursor := { c with ahead := c.ahead.drop u.length }

theorem split (h : c.Spans (u ++ v) d) : c.Spans u (mid c u) ∧ (mid c u).Spans v d := by
  have hm : (mid c u).ahead = v ++ d.ahead := by
    rw [mid, h.1, List.append_assoc, List.drop_left]
  exact ⟨⟨by rw [hm, h.1, List.append_assoc], rfl⟩, hm, h.2⟩

theorem current {t : Token} (h : c.Spans u d) (hu : u.head? = some t) : c.current = t := by
  simp [Cursor.current, h.1, hu]

theorem head {t : Token} (h : c.Spans (t :: u) d) : c.current = t ∧ c.next.Spans u d := by
  exact ⟨h.current rfl, by simp [next, h.1], h.2⟩

theorem single {t : Token} (h : c.Spans [t] d) : c.current = t ∧ d = c.next := by
  obtain ⟨ht, hnext⟩ := h.head
  exact ⟨ht, hnext.unique (refl _)⟩

end Spans

/-- A token that does not end the stream is taken. -/
theorem spans_next {c : Cursor} (h : c.current.kind ≠ .finish) : c.Spans [c.current] c.next := by
  cases ha : c.ahead with
  | nil => exact absurd (current_nil ha) h
  | cons t ts => exact ⟨by simp [current, next, ha], rfl⟩

theorem length_next_lt {c : Cursor} (h : c.current.kind ≠ .finish) :
    c.next.ahead.length < c.ahead.length := by
  have hs := (spans_next h).length
  simp only [List.length_singleton] at hs
  omega

end Cursor

namespace Parse

variable {α β : Type}

theorem bind_apply (x : Parse α) (f : α → Parse β) (c : Cursor) :
    (x >>= f) c = match x c with
      | .ok a d => f a d
      | .error fault d => .error fault d := by
  simp only [bind, EStateM.bind]
  cases x c <;> rfl

theorem bind_ok {x : Parse α} {f : α → Parse β} {c d : Cursor} {b : β}
    (h : (x >>= f) c = .ok b d) : ∃ a e, x c = .ok a e ∧ f a e = .ok b d := by
  rw [bind_apply] at h
  cases hx : x c with
  | ok a e => exact ⟨a, e, rfl, by rw [hx] at h; exact h⟩
  | error fault e =>
    rw [hx] at h
    cases h

theorem pure_ok {a b : α} {c d : Cursor} (h : (pure a : Parse α) c = .ok b d) : a = b ∧ c = d := by
  cases h
  exact ⟨rfl, rfl⟩

theorem fail_ne_ok {cause : Cause} {l : Location} {c d : Cursor} {a : α} :
    (fail cause l : Parse α) c ≠ .ok a d := nofun

theorem advance_ok {f : Token → Parse β} {c d : Cursor} {b : β}
    (h : (advance >>= f) c = .ok b d) : f c.current c.next = .ok b d := h

theorem expect_eq (kind : Kind) (c : Cursor) :
    expect kind c =
      if c.current.kind = kind then .ok c.current c.next
      else .error (.located (.unexpected kind.name c.current.describe) c.current.location) c := by
  by_cases h : c.current.kind = kind
  · rw [if_pos h, expect, bind_apply]
    simp only [current, if_pos h]
    rfl
  · rw [if_neg h, expect, bind_apply]
    simp only [current, if_neg h]
    rfl

theorem expect_ok {kind : Kind} {t : Token} {c d : Cursor} (h : expect kind c = .ok t d) :
    t.kind = kind ∧ t = c.current ∧ d = c.next := by
  rw [expect_eq] at h
  by_cases hk : c.current.kind = kind
  · rw [if_pos hk] at h
    cases h
    exact ⟨hk, rfl, rfl⟩
  · rw [if_neg hk] at h
    cases h

/-- The place where a step ends, also if it fails. -/
def place : EStateM.Result Fault Cursor α → Cursor
  | .ok _ c => c
  | .error _ c => c

/-- A step takes some of the tokens ahead, also if it fails. -/
def Forward (x : Parse α) : Prop := ∀ c : Cursor, ∃ used, c.Spans used (place (x c))

theorem forward_of_eq {x : Parse α} (h : ∀ c, place (x c) = c) : Forward x := fun c => by
  refine ⟨[], ?_⟩
  rw [h]
  exact .refl c

theorem forward_pure (a : α) : Forward (pure a : Parse α) := forward_of_eq fun _ => rfl

theorem forward_fail (cause : Cause) (l : Location) : Forward (fail cause l : Parse α) :=
  forward_of_eq fun _ => rfl

theorem forward_current : Forward current := forward_of_eq fun _ => rfl

theorem forward_bind {x : Parse α} {f : α → Parse β} (hx : Forward x) (hf : ∀ a, Forward (f a)) :
    Forward (x >>= f) := by
  intro c
  obtain ⟨u, hu⟩ := hx c
  rw [bind_apply]
  cases hr : x c with
  | ok a d =>
    rw [hr] at hu
    obtain ⟨v, hv⟩ := hf a d
    exact ⟨u ++ v, hu.trans hv⟩
  | error fault d =>
    rw [hr] at hu
    exact ⟨u, hu⟩

theorem forward_next (c : Cursor) : ∃ used, c.Spans used c.next := by
  cases ha : c.ahead with
  | nil => exact ⟨[], by simp [Cursor.next, ha], rfl⟩
  | cons t ts => exact ⟨[t], by simp [Cursor.next, ha], rfl⟩

theorem forward_advance : Forward advance := forward_next

theorem forward_expect (kind : Kind) : Forward (expect kind) := by
  intro c
  rw [expect_eq]
  by_cases hk : c.current.kind = kind
  · rw [if_pos hk]
    exact forward_next c
  · rw [if_neg hk]
    exact ⟨[], .refl c⟩

theorem Forward.length_le {x : Parse α} (hx : Forward x) {c d : Cursor} {a : α}
    (h : x c = .ok a d) : d.ahead.length ≤ c.ahead.length := by
  obtain ⟨u, hu⟩ := hx c
  rw [h] at hu
  have hl := hu.length
  simp only [place] at hl
  omega

/-- A step succeeds with this value and ends here, or it fails at the nesting limit, which it may
only if `deep`. -/
def Yields (deep : Prop) (x : Parse α) (c : Cursor) (a : α) (d : Cursor) : Prop :=
  x c = .ok a d ∨ deep ∧ ∃ fault e, x c = .error fault e ∧ fault.isTooDeep = true

section Yields

variable {deep : Prop} {x y : Parse α} {f : α → Parse β} {c d e : Cursor} {a : α} {b : β}

theorem yields_of_eq (h : x c = .ok a d) : Yields deep x c a d := .inl h

theorem yields_congr (h : x c = y c) (hy : Yields deep y c a d) : Yields deep x c a d := by
  rw [Yields, h]
  exact hy

theorem Yields.mono {deeper : Prop} (hd : deep → deeper) (h : Yields deep x c a d) :
    Yields deeper x c a d :=
  h.imp_right fun ⟨hp, hf⟩ => ⟨hd hp, hf⟩

theorem yields_bind (hx : Yields deep x c a d) (hf : Yields deep (f a) d b e) :
    Yields deep (x >>= f) c b e := by
  unfold Yields
  rw [bind_apply]
  rcases hx with hx | ⟨hp, fault, k, hx, hk⟩
  · rw [hx]
    exact hf
  · rw [hx]
    exact .inr ⟨hp, fault, k, rfl, hk⟩

theorem yields_pure (a : α) (c : Cursor) : Yields deep (pure a) c a c := .inl rfl

theorem yields_advance {f : Token → Parse β} (hf : Yields deep (f c.current) c.next b e) :
    Yields deep (advance >>= f) c b e := hf

theorem yields_expect {kind : Kind} (h : c.current.kind = kind) :
    Yields deep (expect kind) c c.current c.next := by
  refine yields_of_eq ?_
  rw [expect_eq, if_pos h]

end Yields
end Parse
end BlockScript
