import FileQuery.Proofs.Descent.Course
import FileQuery.Proofs.Descent.Heights
import FileQuery.Proofs.Placement

/-!
Nothing outgrows the limit. Main statement: at every point of a session, however it ends, the
expressions that have been built are no taller than the limit allows, and no more groups are open
than it says (`Session.run_within_limit`). The heights and the groups are those of the recursive
descent, which is shown to be what a session does.
-/

namespace FileQuery

open FileQuery.Parser

/-- How an error stops a descent. Where a word cannot be read, there is no token. -/
def ParseError.stop : ParseError → Stop
  | lexical _ => .exhausted
  | syntactic e => .refused e

/-- At no point of the reductions does the builder hold an expression that is taller than the limit.
The limit does not count for a single node. -/
def StaysWithin (limit : Nat) (rs : List Reduction) : Prop :=
  ∀ before, before <+: rs → ∀ e ∈ (Builder.behind before).stack, e.height ≤ max limit 1

theorem staysWithin_of_fits {limit : Nat} {rs : List Reduction}
    (h : (Builder.behind rs).Fits limit) : StaysWithin limit rs := by
  rintro before ⟨after, rfl⟩
  rw [Builder.behind_append] at h
  exact Builder.fits_of_applyAll h

namespace Parser

variable {limit : Nat}

namespace Descent

theorem course_ending (m : Descent Ending) (c : Cursor) :
    m.course c (fun n _ => { reductions := [], outcome := .ok n }) =
      { reductions := (m c).reductions, outcome := (m c).outcome } := by
  rw [course]
  cases h : (m c).outcome with
  | ok n => simp [Course.after]
  | error e => rfl

end Descent

theorem State.reductions_course (s : State) (ts : List Token) :
    (s.course limit ts).reductions = (s.feed limit ts).reductions := by
  rw [course, Report.course]
  split
  · rename_i n _
    cases n <;> exact List.append_nil _
  · exact List.append_nil _

theorem Descent.reductions_query (limit : Nat) (ts : List Token) :
    (query limit { tokens := ts }).reductions = (State.start.feed limit ts).reductions := by
  rw [← State.reductions_course, course_query, course_ending]

theorem staysWithin_feed (limit : Nat) (ts : List Token) :
    StaysWithin limit (State.start.feed limit ts).reductions := by
  rw [← Descent.reductions_query]
  exact staysWithin_of_fits (Descent.fits_query limit { tokens := ts })

theorem length_groups_le {ts : List Token} {s : State}
    (h : (State.start.feed limit ts).outcome = .ok (.more s)) : s.groups.length ≤ limit :=
  (reachedQuery_of_feed (Report.eq_mk_of_outcome h)).foldl_depthAfter.2

end Parser

namespace Session

theorem Ends.course {limit : Nat} {s : State} {ts : List Token}
    {result : Except ParseError Ending} (h : Ends (s.feed limit ts).outcome result) :
    s.course limit ts =
      { reductions := (s.feed limit ts).reductions
        outcome := result.mapError ParseError.stop } := by
  rw [State.course, Report.course]
  generalize (s.feed limit ts).outcome = out at h
  cases h <;> exact congrArg (Course.mk · _) (List.append_nil _)

theorem Stops.ends {limit : Nat} {s : State} {ts : List Token} {rs : List Reduction}
    {result : Except ParseError Ending} (h : Stops limit s ts rs result) :
    (s.feed limit ts).reductions = rs ∧ Ends (s.feed limit ts).outcome result := by
  cases h with
  | fault hfeed =>
      rw [hfeed]
      exact ⟨rfl, .lexical _ _⟩
  | last hfeed hmore hends =>
      rw [State.feed_append, hfeed, Report.mk_ok_bind, Next.feed, State.feed_singleton]
      exact ⟨rfl, hends⟩

variable {σ : Type} [TokenSource σ]

/-- A session reports what the descent reports of the tokens it has pulled, and comes to the same
end. -/
theorem query_tokens (limit : Nat) (source : σ) :
    (Descent.query limit { tokens := (run limit { source := source }).1.tokens }).reductions =
        (run limit { source := source }).1.reductions ∧
      (Descent.query limit { tokens := (run limit { source := source }).1.tokens }).outcome =
        (run limit { source := source }).2.mapError ParseError.stop := by
  obtain ⟨hreductions, hends⟩ := (stops limit source).ends
  have hcourse := hends.course
  rw [Descent.course_query, Descent.course_ending, hreductions] at hcourse
  exact Course.mk.inj hcourse

/-- However a session ends, no expression on the builder's stack has ever been taller than the limit
allows, and the session does what the descent does with its tokens. Whatever the tokens are, those
of a source without end as well, no more groups are open at a time than the limit says. Behind a
group as many are open as before it, whatever the group comes to. -/
theorem run_within_limit (limit : Nat) (source : σ) :
    StaysWithin limit (run limit { source := source }).1.reductions ∧
      (∀ ts, StaysWithin limit (State.start.feed limit ts).reductions ∧
        (∀ s, (State.start.feed limit ts).outcome = .ok (.more s) → s.groups.length ≤ limit) ∧
        (Descent.query limit { tokens := ts }).cursor.deepest ≤ limit ∧
        (Descent.query limit { tokens := ts }).cursor.depth = 0) ∧
      ((Descent.query limit { tokens := (run limit { source := source }).1.tokens }).reductions =
          (run limit { source := source }).1.reductions ∧
        (Descent.query limit { tokens := (run limit { source := source }).1.tokens }).outcome =
          (run limit { source := source }).2.mapError ParseError.stop) ∧
      ∀ calls opening c,
        (Descent.group limit (Descent.expression limit calls) opening c).cursor.depth =
          c.depth := by
  have hsession : StaysWithin limit (run limit { source := source }).1.reductions := by
    rw [← (stops limit source).ends.1]
    exact staysWithin_feed limit _
  refine ⟨hsession, fun ts => ?_, query_tokens limit source, Descent.depth_group⟩
  exact ⟨staysWithin_feed limit ts, fun s => length_groups_le, Descent.deepest_query_le limit ts,
    Descent.depth_query limit ts⟩

end Session

end FileQuery
