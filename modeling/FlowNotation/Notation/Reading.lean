import FlowNotation.Notation.Fault

/-! Readings: computations that note warnings as they go and may stop with a fault. The warnings
noted before the fault are kept. -/
namespace FlowNotation

/-- Transitions of a state that no answer takes, since an earlier one accepts any. -/
structure ShadowWarning where
  state : Text
  part : Section
  count : Nat
  deriving DecidableEq, Repr

def ShadowWarning.message (w : ShadowWarning) : Text :=
  "State " ++ w.state ++ " in " ++ w.part.name ++ ": catch-all '_' shadows " ++
    toString w.count ++ " later transition(s)"

structure Reading (α : Type) where
  warnings : List ShadowWarning
  result : Except SourceFault α

namespace Reading

variable {α β : Type}

protected def pure (a : α) : Reading α := ⟨[], .ok a⟩

protected def bind (r : Reading α) (f : α → Reading β) : Reading β :=
  match r.result with
  | .error e => ⟨r.warnings, .error e⟩
  | .ok a => ⟨r.warnings ++ (f a).warnings, (f a).result⟩

instance : Monad Reading where
  pure := Reading.pure
  bind := Reading.bind

def ofExcept (e : Except SourceFault α) : Reading α := ⟨[], e⟩

instance : MonadLift (Except SourceFault) Reading where
  monadLift := ofExcept

def warn (w : ShadowWarning) : Reading Unit := ⟨[w], .ok ()⟩

end Reading
end FlowNotation
