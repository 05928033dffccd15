import BlockScript.Proofs.Wire.Reading

namespace BlockScript

namespace Decode

variable {α β : Type}

/-- The numbers of the lines that a step looks at, in the order of the looks. Only a header is looked
for in a line, and where the listing has ended it is looked for in vain. -/
inductive Looks : {α : Type} → Decode α → Listing → List Nat → Prop where
  | value {α : Type} (a : α) (listing : Listing) : Looks (pure a) listing []
  | failure {α : Type} (fault : Fault) (listing : Listing) :
    Looks (throw fault : Decode α) listing []
  | header (listing : Listing) : Looks header listing [listing.number]
  | stop {α β : Type} {x : Decode α} {f : α → Decode β} {listing : Listing} {numbers : List Nat}
    {fault : Fault} (hx : Looks x listing numbers) (hr : x listing = .error fault) :
    Looks (x >>= f) listing numbers
  | go {α β : Type} {x : Decode α} {f : α → Decode β} {listing next : Listing}
    {numbers more : List Nat} {a : α} (hx : Looks x listing numbers)
    (hr : x listing = .ok (a, next)) (hf : Looks (f a) next more) :
    Looks (x >>= f) listing (numbers ++ more)

theorem header_taken {listing next : Listing} {p : Nat × Header}
    (h : header listing = .ok (p, next)) :
    p.1 = listing.number ∧ next.number = listing.number + 1 ∧
      ∃ line, listing.rest = line :: next.rest := by
  unfold header at h
  split at h
  · cases h
  · rename_i line rest hlines
    split at h <;> cases h
    exact ⟨rfl, rfl, line, hlines⟩

namespace Looks

/-- The lines that were looked at are gone. -/
theorem passed {x : Decode α} {listing next : Listing} {numbers : List Nat} {a : α}
    (h : Looks x listing numbers) (hr : x listing = .ok (a, next)) :
    next.number = listing.number + numbers.length ∧
      ∃ used, listing.rest = used ++ next.rest ∧ used.length = numbers.length := by
  induction h generalizing next with
  | value b listing =>
    cases hr
    exact ⟨rfl, [], rfl, rfl⟩
  | failure fault listing => cases hr
  | header listing =>
    obtain ⟨-, hnumber, line, hlines⟩ := header_taken hr
    exact ⟨hnumber, [line], hlines, rfl⟩
  | stop hx hr' ih =>
    rw [bind_apply, hr'] at hr
    cases hr
  | go hx hr' hf ihx ihf =>
    rw [bind_apply, hr'] at hr
    obtain ⟨hnumber, used, hused, hlength⟩ := ihx hr'
    obtain ⟨hnumber', more, hmore, hlength'⟩ := ihf hr
    rw [List.length_append]
    refine ⟨by omega, used ++ more, ?_, ?_⟩
    · rw [hused, hmore, List.append_assoc]
    · rw [List.length_append, hlength, hlength']

/-- The looks go from one line to the next. -/
theorem consecutive {x : Decode α} {listing : Listing} {numbers : List Nat}
    (h : Looks x listing numbers) : numbers = List.range' listing.number numbers.length := by
  induction h with
  | value a listing => rfl
  | failure fault listing => rfl
  | header listing => rfl
  | stop hx hr ih => exact ih
  | go hx hr hf ihx ihf =>
    obtain ⟨hnumber, -⟩ := hx.passed hr
    rw [hnumber] at ihf
    rw [List.length_append, ← List.range'_append_1, ← ihx, ← ihf]

/-- Just one look can be in vain. -/
theorem length_le {x : Decode α} {listing : Listing} {numbers : List Nat}
    (h : Looks x listing numbers) : numbers.length ≤ listing.rest.length + 1 := by
  induction h with
  | value a listing => simp
  | failure fault listing => simp
  | header listing => simp
  | stop hx hr ih => exact ih
  | go hx hr hf ihx ihf =>
    obtain ⟨-, used, hused, hlength⟩ := hx.passed hr
    rw [hused, List.length_append, List.length_append]
    omega

/-- What a step does depends on no other lines than those it looks at. -/
theorem outcome {x : Decode α} {listing : Listing} {numbers : List Nat}
    (h : Looks x listing numbers) {used rest : List String} (hlines : listing.rest = used ++ rest)
    (hlength : used.length = numbers.length) (other : List String) :
    x ⟨listing.number, used ++ other⟩ =
      (x listing).map fun r => (r.1, ⟨r.2.number, other⟩) := by
  induction h generalizing used rest other with
  | value a listing =>
    rw [List.eq_nil_of_length_eq_zero hlength]
    rfl
  | failure fault listing => rfl
  | header listing =>
    obtain ⟨line, rfl⟩ := List.length_eq_one_iff.1 hlength
    simp only [Decode.header, hlines, List.singleton_append]
    split <;> rfl
  | stop hx hr ih =>
    have hother := ih hlines hlength
    rw [bind_apply, bind_apply, hother, hr]
    rfl
  | go hx hr hf ihx ihf =>
    rename_i next numbers more a
    obtain ⟨hnumber, taken, htaken, htakenLength⟩ := hx.passed hr
    rw [List.length_append] at hlength
    -- what the first step looks at stands first among the lines
    have hfirst : taken <+: used := by
      apply List.prefix_of_prefix_length_le (htaken ▸ List.prefix_append taken next.rest)
      · exact hlines ▸ List.prefix_append used rest
      · omega
    obtain ⟨others, rfl⟩ := hfirst
    rw [htaken, List.append_assoc] at hlines
    have hother := ihx htaken htakenLength (others ++ other)
    have hothers := ihf (List.append_cancel_left hlines) (by simp at hlength; omega)
    rw [List.append_assoc, bind_apply, bind_apply, hother, hr]
    exact hothers other

end Looks

/-- From line `number` on, a step looks at one line after the other, and it finds no fault with any
but the last that it looked at. -/
def LineByLine (step : Decode α) (number : Nat) : Prop :=
  ∀ lines, ∃ numbers, Looks step ⟨number, lines⟩ numbers ∧
    ∀ l flaw, step ⟨number, lines⟩ = .error (.line l flaw) → l + 1 = number + numbers.length

theorem lineByLine_pure (value : α) (number : Nat) : LineByLine (pure value : Decode α) number := by
  intro lines
  exact ⟨[], .value value _, nofun⟩

theorem lineByLine_header (number : Nat) : LineByLine header number := by
  intro lines
  refine ⟨[number], .header _, ?_⟩
  intro l flaw h
  unfold header at h
  split at h
  · cases h
    rfl
  · split at h <;> cases h
    rfl

theorem lineByLine_tooDeep (limit : Nat) (h : Header) (number : Nat) :
    LineByLine (tooDeep limit h : Decode α) number := by
  intro lines
  exact ⟨[], .failure _ _, nofun⟩

/-- A check is made right behind the line of its header. -/
theorem lineByLine_check (number : Nat) (h : Header) (result : Except NodeFlaw α) :
    LineByLine (check number h result) (number + 1) := by
  cases result with
  | ok value => exact lineByLine_pure value (number + 1)
  | error flaw =>
    intro lines
    refine ⟨[], .failure _ _, ?_⟩
    rintro l flaw' ⟨⟩
    rfl

/-- The next step goes on behind a step that succeeds. -/
theorem lineByLine_chain {x : Decode α} {f : α → Decode β} {number : Nat}
    (hx : LineByLine x number)
    (hf : ∀ lines a next, x ⟨number, lines⟩ = .ok (a, next) → LineByLine (f a) next.number) :
    LineByLine (x >>= f) number := by
  intro lines
  obtain ⟨numbers, hlooks, hplace⟩ := hx lines
  rw [bind_apply]
  cases hr : x ⟨number, lines⟩ with
  | error fault =>
    refine ⟨numbers, .stop hlooks hr, ?_⟩
    intro l flaw h
    cases h
    exact hplace l flaw hr
  | ok r =>
    obtain ⟨a, next⟩ := r
    obtain ⟨more, hlooks', hplace'⟩ := hf lines a next hr next.rest
    have hnumber : next.number = number + numbers.length := (hlooks.passed hr).1
    refine ⟨numbers ++ more, .go hlooks hr hlooks', ?_⟩
    intro l flaw h
    have hl := hplace' l flaw h
    rw [List.length_append]
    omega

theorem lineByLine_bind {x : Decode α} {f : α → Decode β} {number : Nat}
    (hx : LineByLine x number) (hf : ∀ a next, LineByLine (f a) next) :
    LineByLine (x >>= f) number :=
  lineByLine_chain hx fun _ a next _ => hf a next.number

theorem lineByLine_check_bind {number : Nat} {h : Header} {result : Except NodeFlaw α}
    {f : α → Decode β} (hf : ∀ a, LineByLine (f a) (number + 1)) :
    LineByLine (check number h result >>= f) (number + 1) := by
  apply lineByLine_chain (lineByLine_check number h result)
  intro lines a next hr
  cases result with
  | error flaw => cases hr
  | ok value =>
    cases hr
    exact hf a

theorem lineByLine_header_bind {f : Nat × Header → Decode β} {number : Nat}
    (hf : ∀ h, LineByLine (f (number, h)) (number + 1)) : LineByLine (header >>= f) number := by
  apply lineByLine_chain (lineByLine_header number)
  rintro lines ⟨n, h⟩ next hr
  obtain ⟨hn, hnext, -⟩ := header_taken hr
  have hfirst : n = number := hn
  have hbehind : next.number = number + 1 := hnext
  rw [hfirst, hbehind]
  exact hf h

theorem lineByLine_times {node : Decode α} (hn : ∀ number, LineByLine node number) (n number : Nat) :
    LineByLine (times node n) number := by
  induction n generalizing number with
  | zero => exact lineByLine_pure [] number
  | succ n ih =>
    apply lineByLine_bind (hn number)
    intro first next
    apply lineByLine_bind (ih next)
    intro rest next'
    exact lineByLine_pure _ next'

theorem lineByLine_expressionFrom {nested : Decode Expr} (hn : ∀ number, LineByLine nested number)
    (number : Nat) (h : Header) :
    LineByLine (expressionFrom nested number h) (number + 1) := by
  have hpure := fun (e : Expr) => lineByLine_pure e
  unfold expressionFrom
  split
  case h_7 =>
    apply lineByLine_check_bind
    intro _
    split
    · exact lineByLine_check number h _
    · apply lineByLine_bind (hn _)
      intro callee next
      exact lineByLine_bind (lineByLine_times hn _ next) fun _ => hpure _
  case h_8 | h_9 =>
    apply lineByLine_check_bind
    intro _
    apply lineByLine_check_bind
    intro _
    apply lineByLine_bind (hn _)
    intro left next
    exact lineByLine_bind (hn next) fun _ => hpure _
  case h_10 =>
    apply lineByLine_check_bind
    intro _
    apply lineByLine_check_bind
    intro _
    exact lineByLine_bind (hn _) fun _ => hpure _
  case h_11 => exact lineByLine_check number h _
  all_goals
    apply lineByLine_check_bind
    intro _
    apply lineByLine_check_bind
    intro _
    exact hpure _ (number + 1)

theorem lineByLine_statementFrom {expr : Decode Expr} {stmt : Decode Stmt}
    (he : ∀ number, LineByLine expr number) (hs : ∀ number, LineByLine stmt number) (number : Nat)
    (h : Header) : LineByLine (statementFrom expr stmt number h) (number + 1) := by
  have hpure := fun (s : Stmt) => lineByLine_pure s
  unfold statementFrom
  split
  · apply lineByLine_check_bind
    intro _
    split
    · apply lineByLine_bind (he _)
      intro condition next
      exact lineByLine_bind (hs next) fun _ => hpure _
    · split
      · apply lineByLine_bind (he _)
        intro condition next
        apply lineByLine_bind (hs next)
        intro primary next'
        exact lineByLine_bind (hs next') fun _ => hpure _
      · exact lineByLine_check number h _
  · apply lineByLine_check_bind
    intro _
    apply lineByLine_check_bind
    intro _
    apply lineByLine_bind (hs _)
    intro before next
    apply lineByLine_bind (he next)
    intro condition next'
    apply lineByLine_bind (hs next')
    intro after next''
    exact lineByLine_bind (hs next'') fun _ => hpure _
  · apply lineByLine_check_bind
    intro _
    apply lineByLine_check_bind
    intro _
    apply lineByLine_bind (he _)
    intro place next
    exact lineByLine_bind (he next) fun _ => hpure _
  · apply lineByLine_check_bind
    intro _
    exact lineByLine_bind (lineByLine_times hs _ _) fun _ => hpure _
  · exact lineByLine_bind (lineByLine_expressionFrom he number h) fun _ => hpure _

theorem lineByLine_expression (limit room number : Nat) :
    LineByLine (expression limit room) number := by
  induction room generalizing number with
  | zero =>
    apply lineByLine_header_bind
    intro h
    exact lineByLine_tooDeep limit h (number + 1)
  | succ room ih =>
    apply lineByLine_header_bind
    intro h
    exact lineByLine_expressionFrom ih number h

theorem lineByLine_statement (limit room number : Nat) :
    LineByLine (statement limit room) number := by
  induction room generalizing number with
  | zero =>
    apply lineByLine_header_bind
    intro h
    exact lineByLine_tooDeep limit h (number + 1)
  | succ room ih =>
    apply lineByLine_header_bind
    intro h
    exact lineByLine_statementFrom (lineByLine_expression limit room) ih number h

end Decode
end BlockScript
