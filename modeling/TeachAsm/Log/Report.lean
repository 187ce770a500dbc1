import TeachAsm.Fault
import TeachAsm.Log.Event
/-!
# Reports

A report is the outcome of a piece of work together with the events it told
of on the way. Reports chain: the events of the second follow those of the
first, and after a fault nothing follows. What happened before a fault stays
in the log.
-/

namespace TeachAsm

/-- What a piece of work logged, and its value or the fault that ended it. -/
structure Report (α : Type) where
  events : List Event
  result : Except Fault α

namespace Report

variable {α β γ : Type}

/-- The report of having `a` already. -/
protected def pure (a : α) : Report α :=
  ⟨[], .ok a⟩

/-- First one piece of work, then the one that depends on its value. -/
protected def bind (x : Report α) (f : α → Report β) : Report β :=
  match x.result with
  | .ok a => ⟨x.events ++ (f a).events, (f a).result⟩
  | .error fault => ⟨x.events, .error fault⟩

instance : Monad Report where
  pure := Report.pure
  bind := Report.bind

/-- Work that logs nothing. -/
def ofExcept (result : Except Fault α) : Report α :=
  ⟨[], result⟩

instance : MonadLift (Except Fault) Report where
  monadLift := ofExcept

/-- The report of a fault. -/
def fail (fault : Fault) : Report α :=
  ⟨[], .error fault⟩

/-- The report of some events. -/
def note (events : List Event) : Report Unit :=
  ⟨events, .ok ()⟩

/-! ## What chained reports consist of -/

@[ext] theorem ext {x y : Report α} (he : x.events = y.events) (hr : x.result = y.result) :
    x = y := by
  cases x
  cases y
  simp_all

@[simp] theorem events_pure (a : α) : (pure a : Report α).events = [] := rfl

@[simp] theorem result_pure (a : α) : (pure a : Report α).result = .ok a := rfl

@[simp] theorem lift_ok (a : α) : (liftM (.ok a : Except Fault α) : Report α) = pure a := rfl

@[simp] theorem lift_error (fault : Fault) :
    (liftM (.error fault : Except Fault α) : Report α) = fail fault := rfl

@[simp] theorem fail_bind (fault : Fault) (f : α → Report β) :
    (fail fault : Report α) >>= f = fail fault := rfl

theorem note_bind (events : List Event) (f : Unit → Report β) :
    note events >>= f = ⟨events ++ (f ()).events, (f ()).result⟩ := rfl

theorem bind_of_ok {x : Report α} {a : α} (h : x.result = .ok a) (f : α → Report β) :
    x >>= f = ⟨x.events ++ (f a).events, (f a).result⟩ := by
  simp only [bind, Report.bind, h]

theorem bind_of_error {x : Report α} {fault : Fault} (h : x.result = .error fault)
    (f : α → Report β) : x >>= f = ⟨x.events, .error fault⟩ := by
  simp only [bind, Report.bind, h]

/-- The value of a chain is the chain of the values. -/
theorem result_bind (x : Report α) (f : α → Report β) :
    (x >>= f).result = x.result >>= fun a => (f a).result := by
  cases h : x.result with
  | ok a => rw [bind_of_ok h]; rfl
  | error fault => rw [bind_of_error h]; rfl

theorem result_bind_of_ok {x : Report α} {a : α} (h : x.result = .ok a) (f : α → Report β) :
    (x >>= f).result = (f a).result := by
  rw [bind_of_ok h]

instance : LawfulMonad Report := LawfulMonad.mk' Report
  (fun x => by
    change x >>= (fun a => pure (id a)) = x
    cases h : x.result with
    | ok a => rw [bind_of_ok h]; ext1 <;> simp [h]
    | error fault => rw [bind_of_error h]; ext1 <;> simp [h])
  (fun a f => by rw [bind_of_ok (result_pure a)]; rfl)
  (fun x f g => by
    cases h : x.result with
    | error fault => rw [bind_of_error h, bind_of_error rfl, bind_of_error h]
    | ok a =>
      rw [bind_of_ok h, bind_of_ok h]
      cases hf : (f a).result with
      | error fault => rw [bind_of_error rfl, bind_of_error hf]
      | ok b => rw [bind_of_ok rfl, bind_of_ok hf]; simp)

theorem result_map_of_ok {x : Report α} {a : α} (h : x.result = .ok a) (f : α → β) :
    (f <$> x).result = .ok (f a) := by
  rw [← bind_pure_comp, result_bind_of_ok h]
  rfl

end Report

end TeachAsm
