import BlockScript.Program.Header

namespace BlockScript

mutual

/-- Puts the headers of a tree, each before those of its parts, in front of others. -/
def Expr.headersOnto : Expr → List Header → List Header
  | .call f xs l, rest => (Expr.call f xs l).header :: f.headersOnto (Expr.allHeadersOnto xs rest)
  | .index x i l, rest => (Expr.index x i l).header :: x.headersOnto (i.headersOnto rest)
  | .binary o x y l, rest => (Expr.binary o x y l).header :: x.headersOnto (y.headersOnto rest)
  | .unary o x l, rest => (Expr.unary o x l).header :: x.headersOnto rest
  | e, rest => e.header :: rest

def Expr.allHeadersOnto : List Expr → List Header → List Header
  | [], rest => rest
  | e :: es, rest => e.headersOnto (Expr.allHeadersOnto es rest)

end

mutual

/-- Puts the headers of a tree, each before those of its parts, in front of others. -/
def Stmt.headersOnto : Stmt → List Header → List Header
  | .ifThen c p l, rest => (Stmt.ifThen c p l).header :: c.headersOnto (p.headersOnto rest)
  | .ifElse c p a l, rest =>
    (Stmt.ifElse c p a l).header :: c.headersOnto (p.headersOnto (a.headersOnto rest))
  | .forLoop b c a s l, rest =>
    (Stmt.forLoop b c a s l).header ::
      b.headersOnto (c.headersOnto (a.headersOnto (s.headersOnto rest)))
  | .assign p v l, rest => (Stmt.assign p v l).header :: p.headersOnto (v.headersOnto rest)
  | .block ss l, rest => (Stmt.block ss l).header :: Stmt.allHeadersOnto ss rest
  | .expr e, rest => e.headersOnto rest

def Stmt.allHeadersOnto : List Stmt → List Header → List Header
  | [], rest => rest
  | s :: ss, rest => s.headersOnto (Stmt.allHeadersOnto ss rest)

end

namespace Expr

def headers (e : Expr) : List Header := e.headersOnto []

def encode (e : Expr) : String := "\n".intercalate (e.headers.map Header.toLine)

end Expr

namespace Stmt

/-- The headers of a tree in the order of its encoding. -/
def headers (s : Stmt) : List Header := s.headersOnto []

/-- The lines of a tree, without a line feed behind the last. -/
def encode (s : Stmt) : String := "\n".intercalate (s.headers.map Header.toLine)

end Stmt
end BlockScript
