import FileQuery.Proofs.Grammar
import FileQuery.Proofs.Parser.Reducing

namespace FileQuery.Parser

variable {limit : Nat} {slot : Slot} {gs : List Group} {t : Token} {s : State}
  {rs : List Reduction}

theorem exists_of_fill_eq {height : Nat}
    (h : fill limit slot gs t height = { reductions := rs, outcome := .ok s }) :
    ∃ r, s = .operator slot.disjunction r gs := by
  obtain ⟨n, _, _, -, hn, -⟩ := Report.exists_of_bind_eq h
  split at hn
  · exact ⟨_, (Report.eq_of_pure_eq hn).1.symm⟩
  · exact ⟨_, (Report.eq_of_pure_eq hn).1.symm⟩
  · obtain ⟨i, _, _, -, hi, -⟩ := Report.exists_of_bind_eq hn
    obtain ⟨_, hpure, -⟩ := Report.exists_of_report_bind_eq hi
    exact ⟨_, (Report.eq_of_pure_eq hpure).1.symm⟩

/-- What a token can do where an operand is due. -/
inductive TakesOperand (limit : Nat) (slot : Slot) (gs : List Group) (t : Token) :
    State → List Reduction → Prop
  | negation (ht : t.kind = .negation) (hcount : slot.negationCount + 2 ≤ limit) :
      TakesOperand limit slot gs t (.operand (slot.negated t) gs) []
  | constTrue {s : State} {rs : List Reduction} (ht : t.kind = .constTrue)
      (hfill : fill limit slot gs t 1 = { reductions := rs, outcome := .ok s }) :
      TakesOperand limit slot gs t s (.const true :: rs)
  | constFalse {s : State} {rs : List Reduction} (ht : t.kind = .constFalse)
      (hfill : fill limit slot gs t 1 = { reductions := rs, outcome := .ok s }) :
      TakesOperand limit slot gs t s (.const false :: rs)
  | bare {s : State} {rs : List Reduction} (ht : t.kind.isPredicate = true)
      (ha : t.kind.arguments = .nothing)
      (hfill : fill limit slot gs t 1 = { reductions := rs, outcome := .ok s }) :
      TakesOperand limit slot gs t s (.predicate t.kind 0 :: rs)
  | string (ht : t.kind.isPredicate = true) (ha : t.kind.arguments = .string) :
      TakesOperand limit slot gs t (.string t slot gs) []
  | number (ht : t.kind.isPredicate = true) (ha : t.kind.arguments = .number) :
      TakesOperand limit slot gs t (.number t slot gs) []
  | command (ha : t.kind.arguments = .command) :
      TakesOperand limit slot gs t (.command t 0 slot gs) []
  | leftParen (ht : t.kind = .leftParen) (hlt : gs.length < limit) :
      TakesOperand limit slot gs t (.opened ({ opening := t, slot := slot } :: gs)) []

theorem takesOperand_of_takeKeyword (ht : t.kind.arguments ≠ .command → t.kind.isPredicate = true)
    (h : takeKeyword limit slot gs t = { reductions := rs, outcome := .ok s }) :
    TakesOperand limit slot gs t s rs := by
  unfold takeKeyword at h
  split at h
  · rename_i ha
    obtain ⟨ss, hfill, rfl⟩ := Report.exists_of_report_bind_eq h
    exact .bare (ht (by simp [ha])) ha hfill
  · rename_i ha
    obtain ⟨rfl, rfl⟩ := Report.eq_of_pure_eq h
    exact .string (ht (by simp [ha])) ha
  · rename_i ha
    obtain ⟨rfl, rfl⟩ := Report.eq_of_pure_eq h
    exact .number (ht (by simp [ha])) ha
  · rename_i ha
    obtain ⟨rfl, rfl⟩ := Report.eq_of_pure_eq h
    exact .command ha

theorem takesOperand_of_takeOperand
    (h : takeOperand limit slot gs t = { reductions := rs, outcome := .ok s }) :
    TakesOperand limit slot gs t s rs := by
  unfold takeOperand at h
  split at h
  · rename_i ht
    have hle := le_of_negate_ok (congrArg Report.outcome h)
    rw [negate_of_le hle] at h
    obtain ⟨rfl, rfl⟩ := Report.eq_of_pure_eq h
    exact .negation ht hle
  · rename_i ht
    obtain ⟨ss, hfill, rfl⟩ := Report.exists_of_report_bind_eq h
    exact .constTrue ht hfill
  · rename_i ht
    obtain ⟨ss, hfill, rfl⟩ := Report.exists_of_report_bind_eq h
    exact .constFalse ht hfill
  · rename_i ht
    split at h
    · rename_i hlt
      obtain ⟨rfl, rfl⟩ := Report.eq_of_pure_eq h
      exact .leftParen ht hlt
    · exact absurd h Report.refuse_ne
  · exact absurd h Report.refuse_ne
  · split at h
    · rename_i hstarts
      exact takesOperand_of_takeKeyword
        (TokenKind.isPredicate_of_startsPrimary hstarts ⟨‹_›, ‹_›⟩ ⟨‹_›, ‹_›⟩) h
    · exact absurd h Report.refuse_ne

/-- Nothing but the command word and starting points has been read. -/
def State.AtHead (s : State) : Prop :=
  s = .start ∨ s = .points

/-- What a token can do, unless it is refused. -/
inductive Steps (limit : Nat) : State → Token → Next → List Reduction → Prop
  | find {t : Token} (ht : t.kind = .find) : Steps limit .start t (.more .points) []
  | startingPoint {s : State} {t : Token} (hs : s.AtHead) (ht : t.kind = .startingPoint) :
      Steps limit s t (.more .points) [.startingPoint t.string]
  | first {s s' : State} {t : Token} {rs : List Reduction} (hs : s.AtHead)
      (h : TakesOperand limit {} [] t s' rs) : Steps limit s t (.more s') rs
  | operand {slot : Slot} {gs : List Group} {s' : State} {t : Token} {rs : List Reduction}
      (h : TakesOperand limit slot gs t s' rs) : Steps limit (.operand slot gs) t (.more s') rs
  | opened {gs : List Group} {s' : State} {t : Token} {rs : List Reduction}
      (h : TakesOperand limit {} gs t s' rs) : Steps limit (.opened gs) t (.more s') rs
  | string {slot : Slot} {gs : List Group} {s' : State} {keyword t : Token} {rs : List Reduction}
      (ht : t.kind = .stringArg)
      (hfill : fill limit slot gs keyword 1 = { reductions := rs, outcome := .ok s' }) :
      Steps limit (.string keyword slot gs) t (.more s')
        (.stringArg t.string :: .predicate keyword.kind 1 :: rs)
  | number {slot : Slot} {gs : List Group} {s' : State} {keyword t : Token} {rs : List Reduction}
      (ht : t.kind = .numberArg)
      (hfill : fill limit slot gs keyword 1 = { reductions := rs, outcome := .ok s' }) :
      Steps limit (.number keyword slot gs) t (.more s')
        (.numberArg t.amount :: .predicate keyword.kind 1 :: rs)
  | commandWord {slot : Slot} {gs : List Group} {keyword t : Token} {count : Nat}
      (ht : t.kind = .stringArg) :
      Steps limit (.command keyword count slot gs) t
        (.more (.command keyword (count + 1) slot gs)) [.commandWord t.string]
  | semicolon {slot : Slot} {gs : List Group} {s' : State} {keyword t : Token} {count : Nat}
      {rs : List Reduction} (ht : t.kind = .semicolon) (hcount : count ≠ 0)
      (hfill : fill limit slot gs keyword 1 = { reductions := rs, outcome := .ok s' }) :
      Steps limit (.command keyword count slot gs) t (.more s') (.command keyword.kind count :: rs)
  | conjunction {disjunction : Option Pending} {r : Run} {gs : List Group} {t : Token}
      {height : Nat} {rs : List Reduction} (ht : t.kind = .conjunction)
      (hclose : closeRun limit r = { reductions := rs, outcome := .ok height }) :
      Steps limit (.operator disjunction r gs) t (.more (.operand
        { disjunction := disjunction, tier := .joined { height := height, operator := t } } gs)) rs
  | disjunction {disjunction : Option Pending} {r : Run} {gs : List Group} {t : Token}
      {height : Nat} {rs : List Reduction} (ht : t.kind = .disjunction)
      (hclose : closeTiers limit disjunction r = { reductions := rs, outcome := .ok height }) :
      Steps limit (.operator disjunction r gs) t
        (.more (.operand { disjunction := some { height := height, operator := t } } gs)) rs
  | beside {disjunction : Option Pending} {r : Run} {gs : List Group} {s' : State} {t : Token}
      {rs : List Reduction}
      (h : TakesOperand limit { disjunction := disjunction, tier := .run r } gs t s' rs) :
      Steps limit (.operator disjunction r gs) t (.more s') rs
  | rightParen {disjunction : Option Pending} {r : Run} {g : Group} {gs : List Group} {s' : State}
      {t : Token} {height : Nat} {rs ss : List Reduction} (ht : t.kind = .rightParen)
      (hclose : closeTiers limit disjunction r = { reductions := rs, outcome := .ok height })
      (hfill : fill limit g.slot gs g.opening height = { reductions := ss, outcome := .ok s' }) :
      Steps limit (.operator disjunction r (g :: gs)) t (.more s') (rs ++ ss)
  | empty {s : State} {t : Token} (hs : s.AtHead) (ht : t.kind = .endOfInput) :
      Steps limit s t .empty []
  | complete {disjunction : Option Pending} {r : Run} {t : Token} {height : Nat}
      {rs : List Reduction} (ht : t.kind = .endOfInput)
      (hclose : closeTiers limit disjunction r = { reductions := rs, outcome := .ok height }) :
      Steps limit (.operator disjunction r []) t .complete rs

theorem Steps.endOfInput {n : Next} (h : Steps limit s t n rs) (hn : ∀ s', n ≠ .more s') :
    t.kind = .endOfInput := by
  cases h with
  | empty _ ht | complete ht => exact ht
  | _ => exact absurd rfl (hn _)

namespace State

variable {n : Next}

theorem AtHead.steps_of_takePoint (hs : s.AtHead)
    (h : takePoint limit t = { reductions := rs, outcome := .ok n }) : Steps limit s t n rs := by
  unfold takePoint at h
  split at h
  · rename_i ht
    obtain ⟨ss, hpoints, rfl⟩ := Report.exists_of_report_bind_eq h
    obtain ⟨rfl, rfl⟩ := Report.eq_of_pure_eq hpoints
    exact .startingPoint hs ht
  · rename_i ht
    obtain ⟨rfl, rfl⟩ := Report.eq_of_pure_eq h
    exact .empty hs ht
  · obtain ⟨s', htakes, rfl⟩ := Report.exists_of_map_eq h
    exact .first hs (takesOperand_of_takeOperand htakes)

theorem steps_of_takeCommandWord {keyword : Token} {count : Nat}
    (h : takeCommandWord limit keyword count slot gs t = { reductions := rs, outcome := .ok s }) :
    Steps limit (.command keyword count slot gs) t (.more s) rs := by
  unfold takeCommandWord at h
  split at h
  · rename_i ht
    obtain ⟨ss, hword, rfl⟩ := Report.exists_of_report_bind_eq h
    obtain ⟨rfl, rfl⟩ := Report.eq_of_pure_eq hword
    exact .commandWord ht
  · rename_i ht
    split at h
    · exact absurd h Report.refuse_ne
    · rename_i hcount
      obtain ⟨ss, hfill, rfl⟩ := Report.exists_of_report_bind_eq h
      exact .semicolon ht hcount hfill
  · exact absurd h Report.refuse_ne
  · exact absurd h Report.refuse_ne

theorem steps_of_takeOperator {disjunction : Option Pending} {r : Run}
    (h : takeOperator limit disjunction r gs t = { reductions := rs, outcome := .ok n }) :
    Steps limit (.operator disjunction r gs) t n rs := by
  rw [takeOperator] at h
  split at h
  · rename_i ht
    obtain ⟨height, ss, us, hclose, hmore, rfl⟩ := Report.exists_of_bind_eq h
    obtain ⟨rfl, rfl⟩ := Report.eq_of_pure_eq hmore
    rw [List.append_nil]
    exact .conjunction ht hclose
  · split at h
    · rename_i ht
      obtain ⟨height, ss, us, hclose, hmore, rfl⟩ := Report.exists_of_bind_eq h
      obtain ⟨rfl, rfl⟩ := Report.eq_of_pure_eq hmore
      rw [List.append_nil]
      exact .disjunction ht hclose
    · split at h
      · obtain ⟨s', htakes, rfl⟩ := Report.exists_of_map_eq h
        exact .beside (takesOperand_of_takeOperand htakes)
      · obtain ⟨height, ss, us, hclose, hend, rfl⟩ := Report.exists_of_bind_eq h
        unfold takeEnd at hend
        split at hend
        · rename_i ht
          obtain ⟨s', hfill, rfl⟩ := Report.exists_of_map_eq hend
          exact .rightParen ht hclose hfill
        · exact absurd hend Report.refuse_ne
        · rename_i ht
          obtain ⟨rfl, rfl⟩ := Report.eq_of_pure_eq hend
          rw [List.append_nil]
          exact .complete ht hclose
        · exact absurd hend Report.refuse_ne
        · exact absurd hend Report.refuse_ne

theorem steps_of_step (h : s.step limit t = { reductions := rs, outcome := .ok n }) :
    Steps limit s t n rs := by
  cases s with
  | start =>
      rw [step] at h
      split at h
      · rename_i ht
        obtain ⟨rfl, rfl⟩ := Report.eq_of_pure_eq h
        exact .find ht
      · exact AtHead.steps_of_takePoint (.inl rfl) h
  | points => exact AtHead.steps_of_takePoint (.inr rfl) h
  | operand slot gs =>
      obtain ⟨s', htakes, rfl⟩ := Report.exists_of_map_eq h
      exact .operand (takesOperand_of_takeOperand htakes)
  | opened gs =>
      rw [step] at h
      split at h
      · exact absurd h Report.refuse_ne
      · obtain ⟨s', htakes, rfl⟩ := Report.exists_of_map_eq h
        exact .opened (takesOperand_of_takeOperand htakes)
  | string keyword slot gs =>
      rw [step] at h
      split at h
      · rename_i ht
        obtain ⟨ss, hmore, rfl⟩ := Report.exists_of_report_bind_eq h
        obtain ⟨s', hfill, rfl⟩ := Report.exists_of_map_eq hmore
        exact .string ht hfill
      · exact absurd h Report.refuse_ne
  | number keyword slot gs =>
      rw [step] at h
      split at h
      · rename_i ht
        obtain ⟨ss, hmore, rfl⟩ := Report.exists_of_report_bind_eq h
        obtain ⟨s', hfill, rfl⟩ := Report.exists_of_map_eq hmore
        exact .number ht hfill
      · exact absurd h Report.refuse_ne
  | command keyword count slot gs =>
      obtain ⟨s', hword, rfl⟩ := Report.exists_of_map_eq h
      exact steps_of_takeCommandWord hword
  | operator disjunction r gs => exact steps_of_takeOperator h

end State

end FileQuery.Parser
