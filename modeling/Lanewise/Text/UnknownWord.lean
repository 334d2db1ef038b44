/-
The refusal of a word that names no member of a closed vocabulary: an opcode, an intrinsic or a mode
of the undefined check.
-/
namespace Lanewise.Text

/-- The closed vocabularies whose members are written by name. -/
inductive Vocabulary where
  | opcode
  | intrinsic
  | undefinedCheck
  deriving DecidableEq, Repr

def Vocabulary.noun : Vocabulary → String
  | .opcode => "opcode"
  | .intrinsic => "intrinsic"
  | .undefinedCheck => "undefined-check mode"

structure UnknownWord where
  vocabulary : Vocabulary
  word : String
  deriving DecidableEq, Repr

def UnknownWord.message (unknown : UnknownWord) : String :=
  "unknown " ++ unknown.vocabulary.noun ++ " '" ++ unknown.word ++ "'"

end Lanewise.Text
