import FileQuery.Expression

namespace FileQuery

/-- The starting points of a walk, and the expression that selects files on it. -/
structure Query where
  startingPoints : List String := []
  expression : Option Expression := none
deriving DecidableEq

end FileQuery
