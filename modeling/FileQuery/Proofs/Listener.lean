import FileQuery.Proofs.Session

namespace FileQuery

/-- A listener to one kind of event only. -/
def Event.told {α β : Type} (view : Event → Option α) (hear : β → α → β) (heard : β) (e : Event) :
    β :=
  match view e with
  | some a => hear heard a
  | none => heard

theorem Event.foldl_told {α β : Type} (view : Event → Option α) (hear : β → α → β) (heard : β)
    (es : List Event) : es.foldl (told view hear) heard = (es.filterMap view).foldl hear heard :=
  List.foldl_filterMap.symm

namespace Session

variable {σ β : Type}

/-- The session with an empty record. -/
def forget (s : Session σ) : Session σ :=
  { s with record := [] }

/-- The session, had it begun behind the events of another record. -/
def behind (record : List Event) (s : Session σ) : Session σ :=
  { s with record := s.record ++ record }

theorem events_behind (s s' : Session σ) : (s'.behind s.record).events = s.events ++ s'.events := by
  simp [events, behind]

variable [TokenSource σ] {limit : Nat}

theorem step_eq_behind (limit : Nat) (s : Session σ) :
    s.step limit = (s.forget.step limit).map (behind s.record) := by
  have harmed : s.forget.armed = s.armed := rfl
  simp only [step, harmed]
  split
  · rfl
  · simp only [forget]
    split <;> simp [Progress.map, behind]

/-- Run a session that keeps no record: the events of each step are told to the listener and then
forgotten. -/
def attend (limit : Nat) (hear : β → Event → β) (heard : β) (s : Session σ) :
    β × Except ParseError Ending :=
  match _h : s.forget.step limit with
  | .more s' => attend limit hear (s'.events.foldl hear heard) s'
  | .ended s' result => (s'.events.foldl hear heard, result)
termination_by TokenSource.size s.source
decreasing_by exact size_step_lt (s := s.forget) _h

theorem attend_of_more {hear : β → Event → β} {heard : β} {s s' : Session σ}
    (h : s.forget.step limit = .more s') :
    s.attend limit hear heard = s'.attend limit hear (s'.events.foldl hear heard) := by
  rw [attend]
  split <;> simp_all

theorem attend_of_ended {hear : β → Event → β} {heard : β} {s s' : Session σ}
    {result : Except ParseError Ending} (h : s.forget.step limit = .ended s' result) :
    s.attend limit hear heard = (s'.events.foldl hear heard, result) := by
  rw [attend]
  split <;> simp_all

theorem attend_behind (limit : Nat) (hear : β → Event → β) (heard : β) (record : List Event)
    (s : Session σ) : (s.behind record).attend limit hear heard = s.attend limit hear heard := by
  rw [attend, attend]
  rfl

theorem attend_eq_foldl (limit : Nat) (hear : β → Event → β) (heard : β) (s : Session σ) :
    s.attend limit hear (s.events.foldl hear heard) =
      ((s.run limit).1.events.foldl hear heard, (s.run limit).2) := by
  fun_induction Session.run limit s with
  | case1 s s' hstep ih =>
      rw [step_eq_behind] at hstep
      cases hforget : s.forget.step limit with
      | more s₁ =>
          rw [hforget] at hstep
          obtain rfl := Progress.more.inj hstep
          rw [events_behind, List.foldl_append, attend_behind] at ih
          rw [attend_of_more hforget, ih]
      | ended s₁ result => simp [hforget, Progress.map] at hstep
  | case2 s s' result hstep =>
      rw [step_eq_behind] at hstep
      cases hforget : s.forget.step limit with
      | more s₁ => simp [hforget, Progress.map] at hstep
      | ended s₁ result' =>
          rw [hforget] at hstep
          obtain ⟨rfl, rfl⟩ := Progress.ended.inj hstep
          rw [attend_of_ended hforget, events_behind, List.foldl_append]

/-- No listener has a part in the session. -/
theorem attend_eq {s : Session σ} (hs : s.record = []) (limit : Nat) (hear : β → Event → β)
    (heard : β) :
    s.attend limit hear heard = ((s.run limit).1.events.foldl hear heard, (s.run limit).2) := by
  have h := attend_eq_foldl limit hear heard s
  rwa [events, hs] at h

end Session

end FileQuery
