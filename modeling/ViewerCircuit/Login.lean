import ViewerCircuit.Geometry
import ViewerCircuit.Table
import ViewerCircuit.Uuid

/-!
# Logins

A login service announces circuits; a viewer that presents the code of a circuit with the right
session and agent is authorized for it.
-/
namespace ViewerCircuit

structure Login where
  firstName : String := ""
  lastName : String := ""
  secureSessionId : Uuid := .zero
  startPosition : Vec3 := .zero
  lookAt : Vec3 := .zero
  deriving DecidableEq, Repr

structure Viewer where
  agentId : Uuid
  sessionId : Uuid
  circuitCode : UInt32
  deriving DecidableEq, Repr

inductive Verdict where
  | authorized (login : Option Login)
  | rejected
  | failed
  deriving DecidableEq, Repr

structure Announcement where
  sessionId : Uuid
  agentId : Uuid
  login : Login
  deriving DecidableEq, Repr

structure Announcements where
  circuits : Table UInt32 Announcement := []
  deriving DecidableEq, Repr

namespace Announcements

/-- Announces a circuit; an earlier one with the same code is forgotten. -/
def add (a : Announcements) (code : UInt32) (circuit : Announcement) : Announcements :=
  { a with circuits := a.circuits.put code circuit }

def remove (a : Announcements) (code : UInt32) : Bool × Announcements :=
  (a.circuits.contains code, { a with circuits := a.circuits.erase code })

def authenticate (a : Announcements) (viewer : Viewer) : Verdict :=
  match a.circuits.get? viewer.circuitCode with
  | some expected =>
    if expected.sessionId = viewer.sessionId ∧ expected.agentId = viewer.agentId then
      .authorized (some expected.login)
    else .rejected
  | none => .rejected

end Announcements
end ViewerCircuit
