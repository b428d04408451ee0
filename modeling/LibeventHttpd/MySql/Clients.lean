import LibeventHttpd.Delivery
import LibeventHttpd.EpollRuns
import LibeventHttpd.MySql.Registry

/-! Any number of clients of the database at a time, behind either server: their forms take effect
one after the other. -/
namespace LibeventHttpd.MySql
open Sql Transition Turns

section Clients
variable {b : Backend} {env : Env} {rows : List Row}

end Clients

section Baby

end Baby

end LibeventHttpd.MySql
