/-
What the file scan tells of a session (`scan/mod.rs`, and `report` of `relay_scanned`): a notice for
the user's page and a line of the activity log for every file. The report runs inside the relay, as
it happens, without the gate.
-/
import WebAccess.Scan.Clip
import WebAccess.Serve.Handlers

namespace WebAccess

open Codec Wire Process
open Scan (Dir Report)

def reportedNames (files : List (Text × Nat)) : Text :=
  if files.isEmpty then "files" else List.intercalate ", " (files.map Prod.fst)

def noticeText (server : Text) : Report → Text × Bool
  | .started .upload files => ("scanning " ++ reportedNames files ++ " before they reach " ++
    server, false)
  | .started .download files => ("scanning " ++ reportedNames files ++ " from " ++ server, false)
  | .passed .upload files => (reportedNames files ++ " passed the scan; paste on " ++ server, false)
  | .passed .download files => (reportedNames files ++ " from " ++ server ++ " passed the scan", false)
  | .refused .upload files reason =>
    (reportedNames files ++ " not sent to " ++ server ++ ": " ++ reason.toList, true)
  | .refused .download files reason =>
    (reportedNames files ++ " from " ++ server ++ " refused: " ++ reason.toList, true)

/-- `action` -/
def fileAction : Dir → Text
  | .upload => "file.upload"
  | .download => "file.download"

def fileLine (server : Text) (file : Text × Nat) (verdict : Text) : Text :=
  file.1 ++ " (" ++ number file.2 ++ " bytes), " ++ server ++ ": " ++ verdict

def auditLines (server : Text) : Report → List (Text × Text)
  | .started _ _ => []
  | .passed dir files => files.map fun f => (fileAction dir, fileLine server f "passed")
  | .refused dir files reason =>
    if files.isEmpty then [(fileAction dir, server ++ ": refused: " ++ reason.toList)]
    else files.map fun f => (fileAction dir, fileLine server f ("refused: " ++ reason.toList))

/-- The lines of a report are written one by one. -/
def auditEach (username : Text) : List (Text × Text) → Prog Api (ApiResult Unit)
  | [] => pure (.ok ())
  | (action, detail) :: rest => do
    ask (.audit ⟨username, action, detail⟩)
    auditEach username rest

/-- `report` of `relay_scanned`; `database` is where the session was registered. -/
def report (user : User) (server : Text) (database : Nat) (r : Report) : Prog Api (ApiResult Unit) := do
  ask (.pushNotice user.id (noticeText server r).1 (noticeText server r).2 database)
  auditEach user.username (auditLines server r)

end WebAccess
