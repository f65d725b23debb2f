import TableTalk.Message.Request
import TableTalk.Rejection

/-!
# The password check

A table without an access table admits everyone.  Any other table admits a
sender whose phone number and password stand together in its access table.
-/

namespace TableTalk.Guard

/-- Check that a sender may use a table, and go on if so. -/
def check {α : Type} (table : Table) (sender password : Text)
    (next : Program (Except Rejection α)) : Program (Except Rejection α) :=
  match table.accessTable with
  | none => next
  | some accessTable =>
      .ask (.hasCredential accessTable sender password) fun (granted : Bool) =>
        if granted then next else .done (.error (.unauthorized sender))

end TableTalk.Guard
