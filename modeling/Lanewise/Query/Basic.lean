/-
Queries: an answer or a fault, together with the events on the way to it. Events come in order, and
those before a fault are kept.
-/
import Lanewise.Fault
import Lanewise.Query.Event

namespace Lanewise

structure Query (α : Type) where
  events : List Event
  answer : Except Fault α

namespace Query

variable {α β : Type}

@[ext] theorem ext {q r : Query α} (he : q.events = r.events) (ha : q.answer = r.answer) : q = r := by
  cases q; cases r; simp_all

def ofRead (answer : Except Fault α) : Query α :=
  ⟨[], answer⟩

def andThen (q : Query α) (f : α → Query β) : Query β :=
  match q.answer with
  | .ok a => ⟨q.events ++ (f a).events, (f a).answer⟩
  | .error fault => ⟨q.events, .error fault⟩

instance : Monad Query where
  pure a := ofRead (.ok a)
  bind := andThen

instance : MonadLift (Except Fault) Query where
  monadLift := ofRead

def tell (e : Event) : Query Unit :=
  ⟨[e], .ok ()⟩

def fail (fault : Fault) : Query α :=
  ⟨[], .error fault⟩

/-- The query as one that never faults and answers what became of it. -/
def attempt (q : Query α) : Query (Except Fault α) :=
  ⟨q.events, .ok q.answer⟩

/-- The diagnostics reported on the way, in order. -/
def reports (q : Query α) : List Diagnostic :=
  q.events.filterMap Event.report?

/-! ## Laws -/

@[simp] theorem pure_eq (a : α) : (pure a : Query α) = ⟨[], .ok a⟩ := rfl

@[simp] theorem bind_ok (es : List Event) (a : α) (f : α → Query β) :
    ((⟨es, .ok a⟩ : Query α) >>= f) = ⟨es ++ (f a).events, (f a).answer⟩ := rfl

@[simp] theorem bind_error (es : List Event) (fault : Fault) (f : α → Query β) :
    ((⟨es, .error fault⟩ : Query α) >>= f) = ⟨es, .error fault⟩ := rfl

@[simp] theorem monadLift_eq (read : Except Fault α) : (monadLift read : Query α) = ⟨[], read⟩ := rfl

instance : LawfulMonad Query :=
  LawfulMonad.mk' Query
    (by rintro α ⟨es, a | a⟩ <;> simp [Functor.map, andThen, ofRead])
    (by intros; simp)
    (by
      rintro α β γ ⟨es, fault | a⟩ f g
      · rfl
      · simp only [bind_ok]
        rcases hf : f a with ⟨fs, fault | b⟩ <;> simp)

@[simp] theorem reports_bind_ok (es : List Event) (a : α) (f : α → Query β) :
    ((⟨es, .ok a⟩ : Query α) >>= f).reports = es.filterMap Event.report? ++ (f a).reports := by
  simp [reports]

end Query

end Lanewise
