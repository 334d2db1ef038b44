/-
The one setting there is: what it takes for a value to be fully undefined. It is read from an
environment variable, and a value that cannot be used leaves the default in force.
-/
import Lanewise.Query.Basic
import Lanewise.Text.Blank

namespace Lanewise

inductive UndefinedCheck where
  /-- Only the value itself is looked at. -/
  | topLevel
  /-- Aggregates are walked down to their leaves. -/
  | recursive
  deriving DecidableEq, Repr

namespace UndefinedCheck

/-- The mode a text names, blanks around it aside. Each mode has two names. -/
def ofText (text : String) : Except Text.UnknownWord UndefinedCheck :=
  let word := Text.trim text
  if word = "top-level" ∨ word = "shallow" then .ok .topLevel
  else if word = "recursive" ∨ word = "deep" then .ok .recursive
  else .error ⟨.undefinedCheck, word⟩

/-- The first of the names of a mode. -/
def name : UndefinedCheck → String
  | .topLevel => "top-level"
  | .recursive => "recursive"

example : ofText "top-level" = .ok .topLevel ∧ ofText " \tdeep\n" = .ok .recursive ∧
    ofText "Deep" = .error ⟨.undefinedCheck, "Deep"⟩ := ⟨by rfl, by rfl, by rfl⟩

end UndefinedCheck

structure Settings where
  undefinedCheck : UndefinedCheck := .topLevel
  deriving DecidableEq, Repr

namespace Settings

def variableName : String := "VECIR_UNDEF_CHECK"

/-- The settings for a value of the variable. A value that is not UTF-8 counts as none, and a text that
names no mode is ignored with a warning. -/
def ofEnvironment (value : Option ByteArray) : Query Settings :=
  match value.bind String.fromUTF8? with
  | none => return {}
  | some text =>
    match UndefinedCheck.ofText text with
    | .ok undefinedCheck => return { undefinedCheck }
    | .error unknown => do
      Query.tell (.settingIgnored variableName unknown)
      return {}

end Settings

end Lanewise
