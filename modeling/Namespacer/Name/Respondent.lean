import Namespacer.Failure
import Namespacer.Name.Basic

/-! Who is asked for the names of modules. -/
namespace Namespacer

inductive Respondent where
  /-- Gives prepared answers in order, then empty ones; a missing answer is a failure. -/
  | prepared (answers : List (Option Text))
  /-- Asks on a terminal, and there is none. -/
  | terminal

namespace Respondent

def accepting : Respondent := prepared []

def ask (respondent : Respondent) (request : NameQuestion) : Except Failure Text × Respondent :=
  match respondent with
  | prepared [] => (.ok [], respondent)
  | prepared (some answer :: answers) => (.ok answer, prepared answers)
  | prepared (none :: answers) => (.error .noAnswer, prepared answers)
  | terminal => (.error (.noTerminal request.module), respondent)

end Respondent
end Namespacer
