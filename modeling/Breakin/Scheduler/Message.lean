import Breakin.Util.Trim
import Breakin.Scheduler.State

/-!
# The MSG protocol

What the poll loop of `main` does with one `fgets` result of a burn-in script: it
trims the buffer, and a text that begins with `MSG: ` and has more than five
characters becomes the last message, while any other text becomes the last
message and is logged as an error under the script's name.
-/

namespace Breakin
namespace Scheduler

open Foundation
open Util

def msgTag : CString := "MSG: ".toList

/-- The effect of one line: the new `last_msg`, and the text of the `log_error`
call if there is one. -/
structure LineUpdate where
  lastMsg : CString
  logged : Option CString
deriving DecidableEq

def pollLine (name : CString) (data : List Char) : LineUpdate :=
  let buf := trim (cstr data)
  if startsWith msgTag buf && decide (5 < buf.length) then
    { lastMsg := (buf.drop 5).take BUFSIZ, logged := none }
  else
    { lastMsg := buf.take BUFSIZ
      logged := some (snprintf BUFSIZ (name ++ " - ".toList ++ buf)) }

def LineUpdate.logCalls (u : LineUpdate) : List LogCall :=
  match u.logged with
  | none => []
  | some text => [.error text]

end Scheduler
end Breakin
