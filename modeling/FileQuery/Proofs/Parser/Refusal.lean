import FileQuery.Proofs.Parser.Step

namespace FileQuery.Parser

open SyntaxError (blame)

variable {limit : Nat} {slot : Slot} {gs : List Group} {t : Token} {e : SyntaxError}
  {rs : List Reduction}

/-- Why a place cannot be filled with a primary of a height. -/
inductive RefusesFill (limit : Nat) (slot : Slot) (height : Nat) :
    SyntaxError → List Reduction → Prop
  | negations {n : Negations} (hn : slot.negations = some n) (hlt : limit < height + n.count) :
      RefusesFill limit slot height (blame .nestingTooDeep n.first) []
  | joined {left : Pending} (htier : slot.tier = .joined left)
      (hlt : limit < max left.height (height + slot.negationCount) + 1) :
      RefusesFill limit slot height (blame .nestingTooDeep left.operator)
        (List.replicate slot.negationCount .negation)

/-- Why a run and the disjunction before it cannot be reduced. -/
inductive RefusesClose (limit : Nat) : Option Pending → Run → SyntaxError → List Reduction → Prop
  | run {d : Option Pending} {r : Run} (hcount : r.count ≠ 1) (hlt : limit < r.height + 1) :
      RefusesClose limit d r (blame .nestingTooDeep r.first) []
  | disjunction {left : Pending} {r : Run} {height : Nat} {rs : List Reduction}
      (hrun : closeRun limit r = { reductions := rs, outcome := .ok height })
      (hlt : limit < max left.height height + 1) :
      RefusesClose limit (some left) r (blame .nestingTooDeep left.operator) rs

/-- Why a token is refused where an operand is due. -/
inductive RefusesOperand (limit : Nat) (slot : Slot) (gs : List Group) (t : Token) :
    SyntaxError → List Reduction → Prop
  | negation (ht : t.kind = .negation) (hlt : limit < slot.negationCount + 2) :
      RefusesOperand limit slot gs t
        (blame .nestingTooDeep ((slot.negations.map Negations.first).getD t)) []
  | leaf {r : Reduction} {e : SyntaxError} {rs : List Reduction}
      (ht : t.kind.startsPrimary = true) (hfill : RefusesFill limit slot 1 e rs) :
      RefusesOperand limit slot gs t e (r :: rs)
  | leftParen (ht : t.kind = .leftParen) (hle : limit ≤ gs.length) :
      RefusesOperand limit slot gs t (blame .nestingTooDeep t) []
  | rightParen (ht : t.kind = .rightParen) :
      RefusesOperand limit slot gs t
        (blame (if gs.isEmpty then .unmatchedParenthesis else .unexpectedToken) t) []
  | unexpected (ht : t.kind.startsPrimary = false) (hne : t.kind ≠ .rightParen) :
      RefusesOperand limit slot gs t (blame .unexpectedToken t) []

/-- Why a token is refused. -/
inductive Refuses (limit : Nat) : State → Token → SyntaxError → List Reduction → Prop
  | first {s : State} {t : Token} {e : SyntaxError} {rs : List Reduction} (hs : s.AtHead)
      (ht : t.kind ≠ .startingPoint ∧ t.kind ≠ .endOfInput)
      (h : RefusesOperand limit {} [] t e rs) : Refuses limit s t e rs
  | operand {slot : Slot} {gs : List Group} {t : Token} {e : SyntaxError} {rs : List Reduction}
      (h : RefusesOperand limit slot gs t e rs) : Refuses limit (.operand slot gs) t e rs
  | empty {gs : List Group} {t : Token} (ht : t.kind = .rightParen) :
      Refuses limit (.opened gs) t (blame .emptyParentheses t) []
  | opened {gs : List Group} {t : Token} {e : SyntaxError} {rs : List Reduction}
      (ht : t.kind ≠ .rightParen) (h : RefusesOperand limit {} gs t e rs) :
      Refuses limit (.opened gs) t e rs
  | noString {slot : Slot} {gs : List Group} {keyword t : Token} (ht : t.kind ≠ .stringArg) :
      Refuses limit (.string keyword slot gs) t
        (blame (if t.isEnd then .missingArgument else .unexpectedToken) t) []
  | string {slot : Slot} {gs : List Group} {keyword t : Token} {e : SyntaxError}
      {rs : List Reduction} (ht : t.kind = .stringArg) (hfill : RefusesFill limit slot 1 e rs) :
      Refuses limit (.string keyword slot gs) t e
        (.stringArg t.string :: .predicate keyword.kind 1 :: rs)
  | noNumber {slot : Slot} {gs : List Group} {keyword t : Token} (ht : t.kind ≠ .numberArg) :
      Refuses limit (.number keyword slot gs) t
        (blame (if t.isEnd then .missingArgument else .unexpectedToken) t) []
  | number {slot : Slot} {gs : List Group} {keyword t : Token} {e : SyntaxError}
      {rs : List Reduction} (ht : t.kind = .numberArg) (hfill : RefusesFill limit slot 1 e rs) :
      Refuses limit (.number keyword slot gs) t e
        (.numberArg t.amount :: .predicate keyword.kind 1 :: rs)
  | noWord {slot : Slot} {gs : List Group} {keyword t : Token} (ht : t.kind = .semicolon) :
      Refuses limit (.command keyword 0 slot gs) t (blame .missingArgument t) []
  | semicolon {slot : Slot} {gs : List Group} {keyword t : Token} {count : Nat} {e : SyntaxError}
      {rs : List Reduction} (ht : t.kind = .semicolon) (hcount : count ≠ 0)
      (hfill : RefusesFill limit slot 1 e rs) :
      Refuses limit (.command keyword count slot gs) t e (.command keyword.kind count :: rs)
  | noSemicolon {slot : Slot} {gs : List Group} {keyword t : Token} {count : Nat}
      (ht : t.kind ≠ .stringArg ∧ t.kind ≠ .semicolon) :
      Refuses limit (.command keyword count slot gs) t
        (blame (if t.isEnd then .missingTerminator else .unexpectedToken) t) []
  | conjunction {d : Option Pending} {r : Run} {gs : List Group} {t : Token}
      (ht : t.kind = .conjunction) (hcount : r.count ≠ 1) (hlt : limit < r.height + 1) :
      Refuses limit (.operator d r gs) t (blame .nestingTooDeep r.first) []
  | beside {d : Option Pending} {r : Run} {gs : List Group} {t : Token} {e : SyntaxError}
      {rs : List Reduction} (ht : t.kind.startsPrimary = true)
      (h : RefusesOperand limit { disjunction := d, tier := .run r } gs t e rs) :
      Refuses limit (.operator d r gs) t e rs
  | close {d : Option Pending} {r : Run} {gs : List Group} {t : Token} {e : SyntaxError}
      {rs : List Reduction} (ht : t.kind.startsPrimary = false ∧ t.kind ≠ .conjunction)
      (h : RefusesClose limit d r e rs) : Refuses limit (.operator d r gs) t e rs
  | rightParen {d : Option Pending} {r : Run} {g : Group} {gs : List Group} {t : Token}
      {height : Nat} {e : SyntaxError} {rs ss : List Reduction} (ht : t.kind = .rightParen)
      (hclose : closeTiers limit d r = { reductions := rs, outcome := .ok height })
      (hfill : RefusesFill limit g.slot height e ss) :
      Refuses limit (.operator d r (g :: gs)) t e (rs ++ ss)
  | unmatched {d : Option Pending} {r : Run} {gs : List Group} {t : Token} {height : Nat}
      {rs : List Reduction}
      (ht : t.kind = .rightParen ∧ gs = [] ∨ t.kind = .endOfInput ∧ gs ≠ [])
      (hclose : closeTiers limit d r = { reductions := rs, outcome := .ok height }) :
      Refuses limit (.operator d r gs) t (blame .unmatchedParenthesis t) rs
  | unexpected {d : Option Pending} {r : Run} {gs : List Group} {t : Token} {height : Nat}
      {rs : List Reduction}
      (ht : t.kind.startsPrimary = false ∧ t.kind ≠ .conjunction ∧ t.kind ≠ .disjunction ∧
        t.kind ≠ .rightParen ∧ t.kind ≠ .endOfInput)
      (hclose : closeTiers limit d r = { reductions := rs, outcome := .ok height }) :
      Refuses limit (.operator d r gs) t (blame .unexpectedToken t) rs

theorem eq_of_bounded_eq_error {height : Nat}
    (h : bounded limit height t = { reductions := rs, outcome := .error e }) :
    limit < height ∧ blame .nestingTooDeep t = e ∧ rs = [] := by
  rw [bounded] at h
  split at h
  · exact absurd h Report.pure_ne_error
  · exact ⟨Nat.lt_of_not_le ‹_›, Report.eq_of_refuse_eq h⟩

theorem eq_of_closeRun_eq_error {r : Run}
    (h : closeRun limit r = { reductions := rs, outcome := .error e }) :
    r.count ≠ 1 ∧ limit < r.height + 1 ∧ blame .nestingTooDeep r.first = e ∧ rs = [] := by
  rw [closeRun] at h
  split at h
  · exact absurd h Report.pure_ne_error
  · rename_i hcount
    rcases Report.cases_of_bind_eq_error h with h | ⟨_, _, _, -, h, -⟩
    · exact ⟨hcount, eq_of_bounded_eq_error h⟩
    · obtain ⟨_, hpure, -⟩ := Report.exists_of_report_bind_eq_error h
      exact absurd hpure Report.pure_ne_error

theorem refusesClose_of_closeTiers {d : Option Pending} {r : Run}
    (h : closeTiers limit d r = { reductions := rs, outcome := .error e }) :
    RefusesClose limit d r e rs := by
  rcases Report.cases_of_bind_eq_error h with hrun | ⟨height, ss, us, hrun, hright, rfl⟩
  · obtain ⟨hcount, hlt, rfl, rfl⟩ := eq_of_closeRun_eq_error hrun
    exact .run hcount hlt
  · cases d with
    | none => exact absurd hright Report.pure_ne_error
    | some left =>
        rcases Report.cases_of_bind_eq_error hright with hbound | ⟨_, _, _, -, hreport, -⟩
        · obtain ⟨hlt, rfl, rfl⟩ := eq_of_bounded_eq_error hbound
          rw [List.append_nil]
          exact .disjunction hrun hlt
        · obtain ⟨_, hpure, -⟩ := Report.exists_of_report_bind_eq_error hreport
          exact absurd hpure Report.pure_ne_error

theorem refusesFill_of_fill {height : Nat}
    (h : fill limit slot gs t height = { reductions := rs, outcome := .error e }) :
    RefusesFill limit slot height e rs := by
  rcases Report.cases_of_bind_eq_error h with h | ⟨n, ss, us, hclose, h, rfl⟩
  · cases hn : slot.negations with
    | none =>
        rw [hn] at h
        exact absurd h Report.pure_ne_error
    | some n =>
        rw [hn] at h
        rcases Report.cases_of_bind_eq_error h with h | ⟨_, _, _, -, h, -⟩
        · obtain ⟨hlt, rfl, rfl⟩ := eq_of_bounded_eq_error h
          exact .negations hn hlt
        · obtain ⟨_, hpure, -⟩ := Report.exists_of_report_bind_eq_error h
          exact absurd hpure Report.pure_ne_error
  · rw [closeNegations_of_le (le_of_closeNegations_ok (congrArg Report.outcome hclose))] at hclose
    obtain ⟨rfl, rfl⟩ := Report.mk_ok_inj hclose
    split at h
    · exact absurd h Report.pure_ne_error
    · exact absurd h Report.pure_ne_error
    · rename_i left htier
      rcases Report.cases_of_bind_eq_error h with h | ⟨_, _, _, -, h, -⟩
      · obtain ⟨hlt, rfl, rfl⟩ := eq_of_bounded_eq_error h
        rw [List.append_nil]
        exact .joined htier hlt
      · obtain ⟨_, hpure, -⟩ := Report.exists_of_report_bind_eq_error h
        exact absurd hpure Report.pure_ne_error

theorem refusesOperand_of_leaf {r : Reduction} (ht : t.kind.startsPrimary = true)
    (h : (do report [r]; fill limit slot gs t 1) = { reductions := rs, outcome := .error e }) :
    RefusesOperand limit slot gs t e rs := by
  obtain ⟨ss, hfill, rfl⟩ := Report.exists_of_report_bind_eq_error h
  exact .leaf ht (refusesFill_of_fill hfill)

theorem refusesOperand_of_takeKeyword (ht : t.kind.startsPrimary = true)
    (h : takeKeyword limit slot gs t = { reductions := rs, outcome := .error e }) :
    RefusesOperand limit slot gs t e rs := by
  unfold takeKeyword at h
  split at h
  · exact refusesOperand_of_leaf ht h
  · exact absurd h Report.pure_ne_error
  · exact absurd h Report.pure_ne_error
  · exact absurd h Report.pure_ne_error

theorem refusesOperand_of_negate (ht : t.kind = .negation)
    (h : negate limit slot gs t = { reductions := rs, outcome := .error e }) :
    RefusesOperand limit slot gs t e rs := by
  rcases Report.cases_of_bind_eq_error h with h | ⟨_, _, _, -, h, -⟩
  · obtain ⟨hlt, rfl, rfl⟩ := eq_of_bounded_eq_error h
    rw [slot.count_getD_negations t] at hlt
    have hfirst : (slot.negations.getD { first := t, count := 0 }).first =
        (slot.negations.map Negations.first).getD t := by
      cases slot.negations <;> rfl
    rw [hfirst]
    exact .negation ht hlt
  · exact absurd h Report.pure_ne_error

theorem refusesOperand_of_takeOperand
    (h : takeOperand limit slot gs t = { reductions := rs, outcome := .error e }) :
    RefusesOperand limit slot gs t e rs := by
  unfold takeOperand at h
  split at h
  · exact refusesOperand_of_negate ‹_› h
  · exact refusesOperand_of_leaf (by simp [*, TokenKind.startsPrimary]) h
  · exact refusesOperand_of_leaf (by simp [*, TokenKind.startsPrimary]) h
  · split at h
    · exact absurd h Report.pure_ne_error
    · rename_i ht hle
      obtain ⟨rfl, rfl⟩ := Report.eq_of_refuse_eq h
      exact .leftParen ht (Nat.le_of_not_lt hle)
  · rename_i ht
    obtain ⟨rfl, rfl⟩ := Report.eq_of_refuse_eq h
    exact .rightParen ht
  · split at h
    · exact refusesOperand_of_takeKeyword ‹_› h
    · rename_i hne hstarts
      obtain ⟨rfl, rfl⟩ := Report.eq_of_refuse_eq h
      exact .unexpected (by simpa using hstarts) hne

namespace State

variable {s : State} {keyword : Token}

theorem AtHead.refuses_of_takePoint (hs : s.AtHead)
    (h : takePoint limit t = { reductions := rs, outcome := .error e }) :
    Refuses limit s t e rs := by
  unfold takePoint at h
  split at h
  · obtain ⟨_, hpure, -⟩ := Report.exists_of_report_bind_eq_error h
    exact absurd hpure Report.pure_ne_error
  · exact absurd h Report.pure_ne_error
  · exact .first hs ⟨‹_›, ‹_›⟩ (refusesOperand_of_takeOperand (Report.eq_of_map_eq_error h))

theorem refuses_of_takeCommandWord {count : Nat}
    (h : takeCommandWord limit keyword count slot gs t =
      { reductions := rs, outcome := .error e }) :
    Refuses limit (.command keyword count slot gs) t e rs := by
  unfold takeCommandWord at h
  split at h
  · obtain ⟨_, hpure, -⟩ := Report.exists_of_report_bind_eq_error h
    exact absurd hpure Report.pure_ne_error
  · rename_i ht
    split at h
    · rename_i hcount
      obtain ⟨rfl, rfl⟩ := Report.eq_of_refuse_eq h
      rw [hcount]
      exact .noWord ht
    · rename_i hcount
      obtain ⟨ss, hfill, rfl⟩ := Report.exists_of_report_bind_eq_error h
      exact .semicolon ht hcount (refusesFill_of_fill hfill)
  · rename_i ht
    obtain ⟨rfl, rfl⟩ := Report.eq_of_refuse_eq h
    have hrefuses : Refuses limit (.command keyword count slot gs) t _ [] :=
      .noSemicolon (by simp [ht])
    simpa [Token.isEnd, ht] using hrefuses
  · rename_i hstring hsemicolon hend
    obtain ⟨rfl, rfl⟩ := Report.eq_of_refuse_eq h
    have hrefuses : Refuses limit (.command keyword count slot gs) t _ [] :=
      .noSemicolon ⟨hstring, hsemicolon⟩
    have hmore : t.kind ≠ .endOfInput := hend
    simpa [Token.isEnd, hmore] using hrefuses

theorem refuses_of_takeEnd {d : Option Pending} {r : Run} {height : Nat} {ss : List Reduction}
    (ht : t.kind.startsPrimary = false ∧ t.kind ≠ .conjunction ∧ t.kind ≠ .disjunction)
    (hclose : closeTiers limit d r = { reductions := rs, outcome := .ok height })
    (h : takeEnd limit gs height t = { reductions := ss, outcome := .error e }) :
    Refuses limit (.operator d r gs) t e (rs ++ ss) := by
  unfold takeEnd at h
  split at h
  · rename_i hk
    exact .rightParen hk hclose (refusesFill_of_fill (Report.eq_of_map_eq_error h))
  · rename_i hk
    obtain ⟨rfl, rfl⟩ := Report.eq_of_refuse_eq h
    rw [List.append_nil]
    exact .unmatched (.inl ⟨hk, rfl⟩) hclose
  · exact absurd h Report.pure_ne_error
  · rename_i hk
    obtain ⟨rfl, rfl⟩ := Report.eq_of_refuse_eq h
    rw [List.append_nil]
    exact .unmatched (.inr ⟨hk, List.cons_ne_nil _ _⟩) hclose
  · rename_i groups _ _ hclosing hunmatched hend hopen
    obtain ⟨rfl, rfl⟩ := Report.eq_of_refuse_eq h
    rw [List.append_nil]
    refine .unexpected ⟨ht.1, ht.2.1, ht.2.2, ?_, ?_⟩ hclose
    · intro hk
      cases groups with
      | nil => exact hunmatched hk rfl
      | cons g gs => exact hclosing g gs hk rfl
    · intro hk
      cases groups with
      | nil => exact hend hk rfl
      | cons g gs => exact hopen g gs hk rfl

theorem refuses_of_takeOperator {d : Option Pending} {r : Run}
    (h : takeOperator limit d r gs t = { reductions := rs, outcome := .error e }) :
    Refuses limit (.operator d r gs) t e rs := by
  rw [takeOperator] at h
  split at h
  · rename_i ht
    rcases Report.cases_of_bind_eq_error h with hclose | ⟨_, _, _, -, hmore, -⟩
    · obtain ⟨hcount, hlt, rfl, rfl⟩ := eq_of_closeRun_eq_error hclose
      exact .conjunction ht hcount hlt
    · exact absurd hmore Report.pure_ne_error
  · rename_i hand
    split at h
    · rename_i ht
      rcases Report.cases_of_bind_eq_error h with hclose | ⟨_, _, _, -, hmore, -⟩
      · exact .close (by simp [ht, TokenKind.startsPrimary]) (refusesClose_of_closeTiers hclose)
      · exact absurd hmore Report.pure_ne_error
    · rename_i hor
      split at h
      · rename_i hstarts
        exact .beside hstarts (refusesOperand_of_takeOperand (Report.eq_of_map_eq_error h))
      · rename_i hstarts
        have hstarts : t.kind.startsPrimary = false := by simpa using hstarts
        rcases Report.cases_of_bind_eq_error h with hclose | ⟨height, ss, us, hclose, hend, rfl⟩
        · exact .close ⟨hstarts, hand⟩ (refusesClose_of_closeTiers hclose)
        · exact refuses_of_takeEnd ⟨hstarts, hand, hor⟩ hclose hend

theorem refuses_of_step (h : s.step limit t = { reductions := rs, outcome := .error e }) :
    Refuses limit s t e rs := by
  cases s with
  | start =>
      rw [step] at h
      split at h
      · exact absurd h Report.pure_ne_error
      · exact AtHead.refuses_of_takePoint (.inl rfl) h
  | points => exact AtHead.refuses_of_takePoint (.inr rfl) h
  | operand slot gs =>
      exact .operand (refusesOperand_of_takeOperand (Report.eq_of_map_eq_error h))
  | opened gs =>
      rw [step] at h
      split at h
      · rename_i ht
        obtain ⟨rfl, rfl⟩ := Report.eq_of_refuse_eq h
        exact .empty ht
      · rename_i ht
        exact .opened ht (refusesOperand_of_takeOperand (Report.eq_of_map_eq_error h))
  | string keyword slot gs =>
      rw [step] at h
      split at h
      · rename_i ht
        obtain ⟨ss, hfill, rfl⟩ := Report.exists_of_report_bind_eq_error h
        exact .string ht (refusesFill_of_fill (Report.eq_of_map_eq_error hfill))
      · rename_i ht
        obtain ⟨rfl, rfl⟩ := Report.eq_of_refuse_eq h
        exact .noString ht
  | number keyword slot gs =>
      rw [step] at h
      split at h
      · rename_i ht
        obtain ⟨ss, hfill, rfl⟩ := Report.exists_of_report_bind_eq_error h
        exact .number ht (refusesFill_of_fill (Report.eq_of_map_eq_error hfill))
      · rename_i ht
        obtain ⟨rfl, rfl⟩ := Report.eq_of_refuse_eq h
        exact .noNumber ht
  | command keyword count slot gs =>
      exact refuses_of_takeCommandWord (Report.eq_of_map_eq_error h)
  | operator d r gs => exact refuses_of_takeOperator h

end State

end FileQuery.Parser
