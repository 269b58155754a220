import MailKeep.Core.Types

/-! How the database crate classifies the errors of its driver. -/
namespace MailKeep

inductive ConnErr
  | io
  | poolTimedOut
  | poolClosed
  | other
deriving DecidableEq

inductive SqlErr
  | uniqueConstraintViolation (message : String)
  | foreignKeyConstraintViolation (message : String)
  | other
deriving DecidableEq

/-- A driver error with its text; a failed statement may carry an error the driver
names itself, or else the code and message of the database. -/
inductive DbErr
  | conn (kind : ConnErr) (text : String)
  | connectionAcquire (text : String)
  | statement (sqlErr : Option SqlErr) (code : Option (String × String)) (text : String)
  | other (text : String)
deriving DecidableEq

def codeError (code message text : String) : RepositoryError :=
  if code = "25006" then .readOnly
  else if code = "23505" then .constraint message
  else if code = "23503" then .constraint ("Foreign key violation: " ++ message)
  else if code = "40001" then .conflict
  else if code = "57014" then .queryCanceled
  else if code = "5" ∨ code = "6" then .busy text
  else .database text

def handleDberr : DbErr → RepositoryError
  | .conn .other text => .database text
  | .conn _ text => .connection text
  | .connectionAcquire text => .connection text
  | .statement (some (.uniqueConstraintViolation message)) _ _ => .constraint message
  | .statement (some (.foreignKeyConstraintViolation message)) _ _ =>
    .constraint ("Foreign key violation: " ++ message)
  | .statement (some .other) _ text => .database text
  | .statement none (some (code, message)) text => codeError code message text
  | .statement none none text => .database text
  | .other text => .database text

end MailKeep
