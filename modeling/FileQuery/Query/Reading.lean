import FileQuery.Builder
import FileQuery.Session

namespace FileQuery

/-- Why a text gives no query: it cannot be read, or no tree can be built from it. -/
inductive QueryError where
  | parse (e : ParseError)
  | build (e : BuildError)
deriving DecidableEq

def QueryError.message : QueryError → String
  | parse e => e.message
  | build e => "tree construction failed: " ++ e.message

namespace Query

/-- The query that a finished session has read, built from its reductions. -/
def ofSession (s : Session Lexer × Except ParseError Ending) : Except QueryError Query :=
  match s.2 with
  | .error e => .error (.parse e)
  | .ok _ =>
      match Query.ofReductions s.1.reductions with
      | .error e => .error (.build e)
      | .ok q => .ok q

/-- Read a query text under a nesting limit. -/
def parse (limit : Nat) (text : String) : Except QueryError Query :=
  ofSession ((Session.ofString text).run limit)

end Query

end FileQuery
