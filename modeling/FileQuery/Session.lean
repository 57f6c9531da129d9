import FileQuery.Parser
import FileQuery.TokenSource

/-!
Parse sessions: a parser and the source it pulls its tokens from, with a record of all that happens
between them. The tokens pulled and the reductions reported are views of the record.
-/

namespace FileQuery

/-- What happens in a session: a token is pulled in a mode, or a reduction is reported. -/
inductive Event where
  | pulled (mode : Mode) (t : Token)
  | reduced (r : Reduction)
deriving DecidableEq

namespace Event

/-- The token of a pull. -/
def token? : Event → Option Token
  | pulled _ t => some t
  | reduced _ => none

/-- The reduction of a report. -/
def reduction? : Event → Option Reduction
  | pulled .. => none
  | reduced r => some r

end Event

/-- The end of a session that found no fault: a query without or with an expression. -/
inductive Ending where
  | empty
  | complete
deriving DecidableEq

/-- A source, the state of the parser, and the record, newest event first. -/
structure Session (σ : Type) where
  source : σ
  state : Parser.State := .start
  record : List Event := []

namespace Session

variable {σ : Type} [TokenSource σ]

/-- The source, ready to read the next token as the parser needs it. -/
def armed (s : Session σ) : σ :=
  match s.state.mode? with
  | some m => TokenSource.setMode s.source m
  | none => s.source

/-- A session that goes on, or one that has come to its end. -/
inductive Progress (σ : Type) where
  | more (s : Session σ)
  | ended (s : Session σ) (result : Except ParseError Ending)

/-- Pull one token and hand it to the parser. -/
def step (limit : Nat) (s : Session σ) : Progress σ :=
  let pull := TokenSource.next s.armed
  match pull.1 with
  | .error e => .ended { s with source := pull.2 } (.error (.lexical e))
  | .ok t =>
      let report := s.state.step limit t
      let record := (report.reductions.map .reduced).reverse ++
        .pulled (TokenSource.mode s.armed) t :: s.record
      match report.outcome with
      | .ok (.more state) => .more { source := pull.2, state := state, record := record }
      | .ok .empty => .ended { s with source := pull.2, record := record } (.ok .empty)
      | .ok .complete => .ended { s with source := pull.2, record := record } (.ok .complete)
      | .error e => .ended { s with source := pull.2, record := record } (.error (.syntactic e))

theorem size_armed (s : Session σ) : TokenSource.size s.armed = TokenSource.size s.source := by
  rw [armed]
  split
  · exact TokenSource.size_setMode ..
  · rfl

theorem size_step_lt {limit : Nat} {s s' : Session σ} (h : s.step limit = .more s') :
    TokenSource.size s'.source < TokenSource.size s.source := by
  simp only [step] at h
  split at h
  · simp at h
  · rename_i t ht
    split at h
    · rename_i state hstate
      have hk : t.kind ≠ .endOfInput := fun hk => Parser.State.step_end hk hstate
      obtain rfl := Progress.more.inj h
      rw [← size_armed s]
      exact TokenSource.size_next_lt ht hk
    · simp at h
    · simp at h
    · simp at h

/-- Pull tokens until the query is complete or a fault is found. -/
def run (limit : Nat) (s : Session σ) : Session σ × Except ParseError Ending :=
  match _h : s.step limit with
  | .more s' => run limit s'
  | .ended s' result => (s', result)
termination_by TokenSource.size s.source
decreasing_by exact size_step_lt _h

omit [TokenSource σ]

/-- The record in the order in which things have happened. -/
def events (s : Session σ) : List Event :=
  s.record.reverse

/-- The tokens pulled. -/
def tokens (s : Session σ) : List Token :=
  s.events.filterMap Event.token?

/-- The reductions reported. -/
def reductions (s : Session σ) : List Reduction :=
  s.events.filterMap Event.reduction?

end Session

/-- The session over a query text. -/
def Session.ofString (query : String) : Session Lexer :=
  { source := Lexer.ofString query }

end FileQuery
