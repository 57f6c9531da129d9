import FileQuery.TokenKind

namespace FileQuery.Vocabulary

/-- Every word of the vocabulary with its kind. Three kinds have a second spelling. -/
def entries : List (String × TokenKind) :=
  TokenKind.keywords.map (fun k => (k.spelling, k)) ++
    [("-not", .negation), ("-a", .conjunction), ("-or", .disjunction)]

/-- The kind of a word, if the vocabulary has the word. -/
def lookup? (word : String) : Option TokenKind :=
  entries.lookup word

theorem lookup?_of_mem : ∀ e ∈ entries, lookup? e.1 = some e.2 := by
  decide +kernel

theorem lookup?_spelling {k : TokenKind} (h : k ∈ TokenKind.keywords) :
    lookup? k.spelling = some k :=
  lookup?_of_mem (k.spelling, k) (List.mem_append_left _ (List.mem_map_of_mem h))

end FileQuery.Vocabulary
