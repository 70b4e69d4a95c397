import Montage.Error

/-!
# Warnings beside results

Reading a document can succeed and still have something to say: that a part was skipped, or that
a header was missing.  A `Reported` value carries the warnings in the order in which they came up,
and carries them also if the reading fails in the end.
-/

set_option autoImplicit false

namespace Montage

/-- Something that was passed over. -/
inductive Warning where
  | layerKind
  | skipped (part : Unreadable)
  | replacedTrack (language : String)
  | programMissing
  deriving DecidableEq, Repr

/-- The wording of a warning, up to the excerpt of what was passed over. -/
def Warning.message : Warning → String
  | .layerKind => "Skipping layer of unknown kind"
  | .skipped part => part.warning
  | .replacedTrack language => "Replacing existing caption track for '" ++ language ++ "'"
  | .programMissing => "FFmpeg binary not found on PATH"

/-- A result, or the cause why there is none, and the warnings on the way to it. -/
structure Reported (α : Type) where
  result : Except Error α
  warnings : List Warning := []

namespace Reported

variable {α β : Type}

/-- A result without warnings. -/
def ofExcept (result : Except Error α) : Reported α := ⟨result, []⟩

/-- Goes on with a result; the warnings of both parts are kept. -/
def bind (x : Reported α) (f : α → Reported β) : Reported β :=
  match x.result with
  | .ok a => ⟨(f a).result, x.warnings ++ (f a).warnings⟩
  | .error e => ⟨.error e, x.warnings⟩

instance : Monad Reported where
  pure a := ⟨.ok a, []⟩
  bind := bind

instance : MonadLift (Except Error) Reported := ⟨ofExcept⟩

/-- Says a warning. -/
def warn (warning : Warning) : Reported Unit := ⟨.ok (), [warning]⟩

/-- Fails with a cause. -/
def fail (cause : Error) : Reported α := ⟨.error cause, []⟩

end Reported
end Montage
