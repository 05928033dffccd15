import BlockScript.Proofs.Wire.Headers

namespace BlockScript

/-- A number as it comes out of a record: all that are no number become one. -/
def Single.carried (x : Single) : Single := if x.isNaN then nan else x

theorem Single.plain_carried (x : Single) : x.carried.plain = x.plain := by
  unfold carried
  split
  · rename_i h
    rw [plain, plain, if_pos h]
    rfl
  · rfl

mutual

/-- An expression as it comes out of an encoding. -/
def Expr.carried : Expr → Expr
  | .int value l => .int value l.carried
  | .float value l => .float value.carried l.carried
  | .string value l => .string value l.carried
  | .bool value l => .bool value l.carried
  | .void l => .void l.carried
  | .identifier name l => .identifier name l.carried
  | .call f xs l => .call f.carried (Expr.allCarried xs) l.carried
  | .index x i l => .index x.carried i.carried l.carried
  | .binary op x y l => .binary op x.carried y.carried l.carried
  | .unary op x l => .unary op x.carried l.carried

def Expr.allCarried : List Expr → List Expr
  | [] => []
  | e :: es => e.carried :: Expr.allCarried es

end

mutual

/-- A statement as it comes out of an encoding: the marks in its file names have become spaces, and
all that are no number have become one. -/
def Stmt.carried : Stmt → Stmt
  | .ifThen c p l => .ifThen c.carried p.carried l.carried
  | .ifElse c p a l => .ifElse c.carried p.carried a.carried l.carried
  | .forLoop b c a s l => .forLoop b.carried c.carried a.carried s.carried l.carried
  | .assign p v l => .assign p.carried v.carried l.carried
  | .block ss l => .block (Stmt.allCarried ss) l.carried
  | .expr e => .expr e.carried

def Stmt.allCarried : List Stmt → List Stmt
  | [] => []
  | s :: ss => s.carried :: Stmt.allCarried ss

end

theorem Expr.length_allCarried (es : List Expr) : (allCarried es).length = es.length := by
  induction es with
  | nil => rfl
  | cons e es ih => rw [allCarried, List.length_cons, List.length_cons, ih]

theorem Stmt.length_allCarried (ss : List Stmt) : (allCarried ss).length = ss.length := by
  induction ss with
  | nil => rfl
  | cons s ss ih => rw [allCarried, List.length_cons, List.length_cons, ih]

/-- Carrying a tree over changes only the places in its headers. -/
theorem Expr.header_carried (e : Expr) : e.carried.header = e.header.carried := by
  cases e <;>
    simp [carried, header, Header.carried, form, payload, parts, location, Single.plain_carried,
      length_allCarried]

theorem Stmt.header_carried (s : Stmt) : s.carried.header = s.header.carried := by
  cases s with
  | expr e => rw [carried, header_expr, header_expr, e.header_carried]
  | _ => simp [carried, header, Header.carried, form, payload, parts, location, length_allCarried]

mutual

theorem Expr.headersOnto_carried : ∀ (e : Expr) (rest : List Header),
    e.carried.headersOnto (rest.map Header.carried) = (e.headersOnto rest).map Header.carried
  | .call f xs l, rest => by
    have h := (Expr.call f xs l).header_carried
    have hf := f.headersOnto_carried (allHeadersOnto xs rest)
    have hxs := Expr.allHeadersOnto_carried xs rest
    simp only [carried] at h
    simp only [carried, headersOnto, List.map_cons, ← hf, ← hxs, h]
  | .index x i l, rest => by
    have h := (Expr.index x i l).header_carried
    have hx := x.headersOnto_carried (i.headersOnto rest)
    have hi := i.headersOnto_carried rest
    simp only [carried] at h
    simp only [carried, headersOnto, List.map_cons, ← hx, ← hi, h]
  | .binary o x y l, rest => by
    have h := (Expr.binary o x y l).header_carried
    have hx := x.headersOnto_carried (y.headersOnto rest)
    have hy := y.headersOnto_carried rest
    simp only [carried] at h
    simp only [carried, headersOnto, List.map_cons, ← hx, ← hy, h]
  | .unary o x l, rest => by
    have h := (Expr.unary o x l).header_carried
    have hx := x.headersOnto_carried rest
    simp only [carried] at h
    simp only [carried, headersOnto, List.map_cons, ← hx, h]
  | .int value l, _ => by
    simp only [carried, headersOnto, List.map_cons]
    rfl
  | .float value l, _ => by
    have h := (Expr.float value l).header_carried
    simp only [carried] at h
    simp only [carried, headersOnto, List.map_cons, h]
  | .string .., _ | .bool .., _ | .void _, _ | .identifier .., _ => by
    simp only [carried, headersOnto, List.map_cons]
    rfl

theorem Expr.allHeadersOnto_carried : ∀ (es : List Expr) (rest : List Header),
    allHeadersOnto (allCarried es) (rest.map Header.carried) =
      (allHeadersOnto es rest).map Header.carried
  | [], _ => rfl
  | e :: es, rest => by
    have he := e.headersOnto_carried (allHeadersOnto es rest)
    have hes := Expr.allHeadersOnto_carried es rest
    simp only [allCarried, allHeadersOnto, ← he, ← hes]

end

mutual

theorem Stmt.headersOnto_carried : ∀ (s : Stmt) (rest : List Header),
    s.carried.headersOnto (rest.map Header.carried) = (s.headersOnto rest).map Header.carried
  | .ifThen c p l, rest => by
    have h := (Stmt.ifThen c p l).header_carried
    have hc := c.headersOnto_carried (p.headersOnto rest)
    have hp := p.headersOnto_carried rest
    simp only [carried] at h
    simp only [carried, headersOnto, List.map_cons, ← hc, ← hp, h]
  | .ifElse c p a l, rest => by
    have h := (Stmt.ifElse c p a l).header_carried
    have hc := c.headersOnto_carried (p.headersOnto (a.headersOnto rest))
    have hp := p.headersOnto_carried (a.headersOnto rest)
    have ha := a.headersOnto_carried rest
    simp only [carried] at h
    simp only [carried, headersOnto, List.map_cons, ← hc, ← hp, ← ha, h]
  | .forLoop b c a s l, rest => by
    have h := (Stmt.forLoop b c a s l).header_carried
    have hb := b.headersOnto_carried (c.headersOnto (a.headersOnto (s.headersOnto rest)))
    have hc := c.headersOnto_carried (a.headersOnto (s.headersOnto rest))
    have ha := a.headersOnto_carried (s.headersOnto rest)
    have hs := s.headersOnto_carried rest
    simp only [carried] at h
    simp only [carried, headersOnto, List.map_cons, ← hb, ← hc, ← ha, ← hs, h]
  | .assign p v l, rest => by
    have h := (Stmt.assign p v l).header_carried
    have hp := p.headersOnto_carried (v.headersOnto rest)
    have hv := v.headersOnto_carried rest
    simp only [carried] at h
    simp only [carried, headersOnto, List.map_cons, ← hp, ← hv, h]
  | .block ss l, rest => by
    have h := (Stmt.block ss l).header_carried
    have hss := Stmt.allHeadersOnto_carried ss rest
    simp only [carried] at h
    simp only [carried, headersOnto, List.map_cons, ← hss, h]
  | .expr e, rest => e.headersOnto_carried rest

theorem Stmt.allHeadersOnto_carried : ∀ (ss : List Stmt) (rest : List Header),
    allHeadersOnto (allCarried ss) (rest.map Header.carried) =
      (allHeadersOnto ss rest).map Header.carried
  | [], _ => rfl
  | s :: ss, rest => by
    have hs := s.headersOnto_carried (allHeadersOnto ss rest)
    have hss := Stmt.allHeadersOnto_carried ss rest
    simp only [allCarried, allHeadersOnto, ← hs, ← hss]

end

/-- A tree that was carried over has the same encoding. -/
theorem Stmt.encode_carried (s : Stmt) : s.carried.encode = s.encode := by
  have h := s.headersOnto_carried []
  rw [List.map_nil] at h
  rw [encode, encode, headers, headers, h, List.map_map]
  congr 2
  funext header
  exact header.toLine_carried

end BlockScript
