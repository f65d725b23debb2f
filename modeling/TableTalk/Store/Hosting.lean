import TableTalk.Message.Handling
import TableTalk.Store.Read
import TableTalk.Store.Write

/-!
# The database as a host

The database answers every request a message makes; replies are taken as
delivered.  A reading leaves the database as it is, and so does a writing that
fails.
-/

namespace TableTalk

namespace Database

/-- The answer to a reading, with the database as it is. -/
def answered {α : Type} (db : Database) (answer : Except Failure α) : Except Failure α × Database :=
  (answer, db)

/-- The database after a writing that may fail. -/
def written (db : Database) (result : Except Failure Database) : Except Failure Unit × Database :=
  match result with
  | .ok db => (.ok (), db)
  | .error e => (.error e, db)

/-- Answer requests from a database.  Rows are stamped with the given instant. -/
def host (stamp : Instant) : Host Database
  | .shortcuts, db => db.answered (.ok db.shortcuts)
  | .findTable name, db => db.answered (db.findTable name)
  | .hasCredential id phone password, db => db.answered (db.hasCredential id phone password)
  | .select table query columns, db => db.answered (db.select table query columns)
  | .insert table values sender, db => db.written (db.insert stamp table values sender)
  | .send _ _, db => (.ok (), db)

/-- Handle a message on a database. -/
def handle (limits : Limits) (stamp now : Instant) (message : Message) (db : Database) :
    Run Database Outcome :=
  (Handling.handle limits now message).run (host stamp) db

end Database

end TableTalk
